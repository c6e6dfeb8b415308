import Evald.JsonText
import Evald.Lib.Truth
import Evald.LlmSpan

/-! # LLM spans in SQL

The latency report selects the LLM spans with a condition on the row of a span.  It looks for
the attributes of a model call in the text of all attributes, where `isLlmSpan` looks at the
keys (`llmPredicate_iff`).
-/

namespace Evald.Latency

open Evald.Lib

/-! ## The condition -/

/-- The columns the condition reads. -/
structure SpanRow where
  oiKind : Option String
  model : Option String
  rawAttributesJson : List Char

section Predicate

-- how a double is printed, and the upper case of a character
variable (printFloat : ℚ → List Char) (upper : Char → List Char)

/-- The row a span is stored as. -/
def spanRow (s : NormalizedSpan) : SpanRow :=
  { oiKind := s.oiKind
    model := s.model
    rawAttributesJson := (Json.obj s.rawAttributes.toList).text printFloat }

/-- The position of the first occurrence, from 1; 0 where there is none. -/
def strpos (text pattern : List Char) : Nat :=
  match text.tails.findIdx? (fun tail => pattern.isPrefixOf tail) with
  | some i => i + 1
  | none => 0

def upperText (s : String) : String := String.ofList (s.toList.flatMap upper)

/-- A key of the text that starts so. -/
def hasKey (row : SpanRow) (start : String) : Truth :=
  .ofBool (0 < strpos row.rawAttributesJson ('"' :: start.toList))

/-- `LLM_PREDICATE`. -/
def llmPredicate (row : SpanRow) : Truth :=
  (Truth.on row.oiKind (fun k => upperText upper k = "LLM")).or
    (((Truth.ofBool row.oiKind.isNone).or
        (Truth.on row.oiKind (fun k => upperText upper k ∈ ["AGENT", "CHAIN", "TOOL"])).not).and
      ((((Truth.ofBool row.model.isSome).or (hasKey row "gen_ai.request.")).or
        (hasKey row "gen_ai.response.")).or (hasKey row "gen_ai.usage.")))

end Predicate

/-! ## The upper case -/

/-- The letters of the kinds that are asked for. -/
def kindLetters : List Char := ['A', 'G', 'E', 'N', 'T', 'C', 'H', 'I', 'O', 'L', 'M']

/-- What Unicode has for these letters: the ASCII letters, and the small `i` without a dot,
which has the capital `I`. -/
structure UnicodeUpper (upper : Char → List Char) : Prop where
  ascii : ∀ c, c.toNat < 128 → upper c = [c.toUpper]
  dotless : upper 'ı' = ['I']
  others : ∀ c, 128 ≤ c.toNat → c ≠ 'ı' → ∃ d ∈ upper c, d ∉ kindLetters

theorem toUpper_eq_iff {c w : Char} (capital : w.toUpper = w) :
    c.toUpper = w ↔ c.toLower = w.toLower := by
  constructor
  · intro same
    rw [← same, Char.toLower_toUpper_eq_toLower]
  · intro same
    rw [← Char.toUpper_toLower_eq_toUpper, same, Char.toUpper_toLower_eq_toUpper, capital]

theorem toUpper_of_not_ascii {c : Char} (large : 128 ≤ c.toNat) : c.toUpper = c := by
  apply Char.toUpper_eq_of_not_isLower
  intro lower
  simp only [Char.isLower, Bool.and_eq_true, decide_eq_true_eq] at lower
  have small : c.toNat ≤ 'z'.toNat := lower.2
  have last : 'z'.toNat = 122 := rfl
  omega

/-- One character whose upper case is a capital of the kinds. -/
def UpperCase (c w : Char) : Prop := c.toLower = w.toLower ∨ c = 'ı' ∧ w = 'I'

variable {upper : Char → List Char}

theorem kindLetter_spec : ∀ w ∈ kindLetters,
    w.toUpper = w ∧ w.toNat < 128 ∧ 'ı'.toLower ≠ w.toLower := by
  simp only [kindLetters, List.forall_mem_cons, List.not_mem_nil, false_implies, implies_true,
    and_true]
  decide

theorem UnicodeUpper.upper_eq_iff (unicode : UnicodeUpper upper) {c w : Char}
    (letter : w ∈ kindLetters) : upper c = [w] ↔ UpperCase c w := by
  obtain ⟨isCapital, small, notDotless⟩ := kindLetter_spec w letter
  unfold UpperCase
  by_cases isAscii : c.toNat < 128
  · have differ : c ≠ 'ı' := by
      intro same
      rw [same] at isAscii
      exact absurd isAscii (by decide)
    rw [unicode.ascii c isAscii, List.cons.injEq, toUpper_eq_iff isCapital]
    simp [differ]
  · by_cases dotless : c = 'ı'
    · rw [dotless, unicode.dotless, List.cons.injEq]
      simp only [notDotless, and_true, false_or, true_and]
      exact eq_comm
    · have large : 128 ≤ c.toNat := by omega
      obtain ⟨d, listed, foreign⟩ := unicode.others c large dotless
      constructor
      · intro same
        rw [same, List.mem_singleton] at listed
        exact absurd (listed ▸ letter) foreign
      · intro either
        cases either with
        | inl same =>
          rw [← toUpper_eq_iff isCapital, toUpper_of_not_ascii large] at same
          rw [same] at large
          omega
        | inr same => exact absurd same.1 dotless

theorem UnicodeUpper.cases (unicode : UnicodeUpper upper) (c : Char) :
    (∃ x, upper c = [x]) ∨ ∃ d ∈ upper c, d ∉ kindLetters := by
  by_cases isAscii : c.toNat < 128
  · exact .inl ⟨_, unicode.ascii c isAscii⟩
  · by_cases dotless : c = 'ı'
    · exact .inl ⟨_, dotless ▸ unicode.dotless⟩
    · exact .inr (unicode.others c (by omega) dotless)

/-- A text whose upper case is one of the kinds. -/
theorem UnicodeUpper.flatMap_eq_iff (unicode : UnicodeUpper upper) {text word : List Char}
    (letters : ∀ w ∈ word, w ∈ kindLetters) :
    text.flatMap upper = word ↔ text.Forall₂ UpperCase word := by
  induction text generalizing word with
  | nil =>
    rw [List.forall₂_nil_left_iff]
    exact eq_comm
  | cons c text inductionHypothesis =>
    rw [List.flatMap_cons, List.forall₂_cons_left_iff]
    obtain ⟨x, single⟩ | ⟨d, listed, foreign⟩ := unicode.cases c
    · rw [single, List.singleton_append]
      constructor
      · intro same
        rw [← same, List.forall_mem_cons] at letters
        exact ⟨x, _, (unicode.upper_eq_iff letters.1).mp single,
          (inductionHypothesis letters.2).mp rfl, same.symm⟩
      · intro ⟨w, rest, here, later, isWord⟩
        rw [isWord, List.forall_mem_cons] at letters
        rw [(unicode.upper_eq_iff letters.1).mpr here, List.cons.injEq] at single
        rw [isWord, (inductionHypothesis letters.2).mpr later, single.1]
    · constructor
      · intro same
        rw [← same] at letters
        exact absurd (letters d (List.mem_append_left _ listed)) foreign
      · intro ⟨w, rest, here, later, isWord⟩
        rw [isWord, List.forall_mem_cons] at letters
        rw [(unicode.upper_eq_iff letters.1).mpr here, List.mem_singleton] at listed
        exact absurd (listed ▸ letters.1) foreign

theorem toLower_eq_iff_forall₂ (text word : List Char) :
    text.map Char.toLower = word.map Char.toLower ↔
      text.Forall₂ (fun c w => c.toLower = w.toLower) word := by
  rw [← List.forall₂_eq_eq_eq, List.forall₂_map_left_iff, List.forall₂_map_right_iff]

theorem forall₂_upperCase_iff {word : List Char} (noI : 'I' ∉ word) (text : List Char) :
    text.Forall₂ UpperCase word ↔ text.map Char.toLower = word.map Char.toLower := by
  rw [toLower_eq_iff_forall₂]
  induction word generalizing text with
  | nil => simp
  | cons w word inductionHypothesis =>
    rw [List.mem_cons, not_or] at noI
    simp [List.forall₂_cons_right_iff, inductionHypothesis noI.2, UpperCase, Ne.symm noI.1]

theorem toLower_eq_dotless (c : Char) : c.toLower = 'ı' ↔ c = 'ı' := by
  by_cases isUpper : c.isUpper = true
  · have small : c.toNat ≤ 90 := by
      simp only [Char.isUpper, decide_eq_true_eq] at isUpper
      exact isUpper.2
    have lower : c.toLower.toNat ≠ 305 := by
      rw [Char.toLower_eq_of_isUpper isUpper, Char.toNat_ofNat]
      split <;> omega
    constructor
    · intro same
      exact absurd (congrArg Char.toNat same) lower
    · intro same
      rw [same] at small
      exact absurd small (by decide)
  · rw [Char.toLower_eq_of_not_isUpper isUpper]

theorem forall₂_chain_iff (text : List Char) :
    text.Forall₂ UpperCase ['C', 'H', 'A', 'I', 'N'] ↔
      text.map Char.toLower = ['C', 'H', 'A', 'I', 'N'].map Char.toLower ∨
        text.map Char.toLower = ['C', 'H', 'A', 'ı', 'N'].map Char.toLower := by
  have other : Char.toLower 'ı' = 'ı' := by decide
  rcases text with _ | ⟨c₁, _ | ⟨c₂, _ | ⟨c₃, _ | ⟨c₄, _ | ⟨c₅, _ | ⟨c₆, text⟩⟩⟩⟩⟩⟩
  case cons.cons.cons.cons.cons.nil =>
    simp only [List.forall₂_cons, List.Forall₂.nil, UpperCase, List.map_cons, List.map_nil,
      List.cons.injEq, other, toLower_eq_dotless]
    simp
    tauto
  all_goals simp

/-- But for the small `i` without a dot, the upper case is what is compared without case. -/
theorem UnicodeUpper.upperText_eq_iff (unicode : UnicodeUpper upper) (k : String) :
    (upperText upper k = "LLM" ↔ eqIgnoreAsciiCase k "LLM" = true) ∧
      (upperText upper k = "AGENT" ↔ eqIgnoreAsciiCase k "AGENT" = true) ∧
      (upperText upper k = "TOOL" ↔ eqIgnoreAsciiCase k "TOOL" = true) ∧
      (upperText upper k = "CHAIN" ↔
        eqIgnoreAsciiCase k "CHAIN" = true ∨ eqIgnoreAsciiCase k "CHAıN" = true) := by
  have isUpper (word : String) (letters : ∀ w ∈ word.toList, w ∈ kindLetters) :
      upperText upper k = word ↔ k.toList.Forall₂ UpperCase word.toList := by
    rw [← unicode.flatMap_eq_iff letters, upperText, ← String.toList_inj, String.toList_ofList]
  have ignoresCase (word : String) :
      eqIgnoreAsciiCase k word = true ↔ k.toList.map Char.toLower = word.toList.map Char.toLower := by
    unfold eqIgnoreAsciiCase asciiLowercase
    rw [decide_eq_true_eq, String.ofList_inj]
  simp only [ignoresCase]
  refine ⟨?_, ?_, ?_, ?_⟩
  · rw [isUpper _ (by simp [kindLetters]), forall₂_upperCase_iff (by simp)]
  · rw [isUpper _ (by simp [kindLetters]), forall₂_upperCase_iff (by simp)]
  · rw [isUpper _ (by simp [kindLetters]), forall₂_upperCase_iff (by simp)]
  · rw [isUpper _ (by simp [kindLetters])]
    exact forall₂_chain_iff k.toList

/-! ## The text of the attributes -/

theorem exists_tail_iff (text word : List Char) :
    (∃ tail ∈ text.tails, '"' :: word <+: tail) ↔ ∃ rest ∈ afterQuotes text, word <+: rest := by
  induction text with
  | nil => simp [afterQuotes]
  | cons c text inductionHypothesis =>
    rw [List.tails_cons, List.exists_mem_cons_iff, List.cons_prefix_cons, afterQuotes]
    by_cases quote : c = '"'
    · rw [if_pos quote, List.exists_mem_cons_iff]
      simp only [quote, true_and]
      exact or_congr_right inductionHypothesis
    · rw [if_neg quote]
      simp only [Ne.symm quote, false_and, false_or]
      exact inductionHypothesis

theorem strpos_pos_iff (text word : List Char) :
    0 < strpos text ('"' :: word) ↔ ∃ rest ∈ afterQuotes text, word <+: rest := by
  rw [← exists_tail_iff]
  unfold strpos
  cases first : text.tails.findIdx? (fun tail => ('"' :: word).isPrefixOf tail) with
  | none =>
    rw [List.findIdx?_eq_none_iff] at first
    simp only [lt_irrefl, false_iff, not_exists, not_and]
    intro tail listed start
    have never := first tail listed
    rw [List.isPrefixOf_iff_prefix.mpr start] at never
    cases never
  | some i =>
    obtain ⟨within, start, -⟩ := List.findIdx?_eq_some_iff_getElem.mp first
    simp only [Nat.zero_lt_succ, true_iff]
    exact ⟨_, List.getElem_mem within, List.isPrefixOf_iff_prefix.mp start⟩

/-- Where the text of a word starts with an attribute of a model call, or goes on with one
behind a quote of its own. -/
def mentionsCall (word : List Char) : Bool :=
  (word :: afterQuotes word).any (fun rest => isCallAttribute (String.ofList rest))

/-- The keys and strings of the attributes, at any depth. -/
def attributeWords (s : NormalizedSpan) : List (List Char) := membersWords s.rawAttributes.toList

section Row

variable {printFloat : ℚ → List Char} (plain : PlainFloats printFloat) (s : NormalizedSpan)
include plain

/-- The quotes of a row are those of its words. -/
theorem afterQuotes_spanRow : afterQuotes (spanRow printFloat s).rawAttributesJson =
    (membersPlaced printFloat s.rawAttributes.toList []).flatMap Placed.seen := by
  have whole := Json.afterQuotes_text plain [] (.obj s.rawAttributes.toList)
  rw [List.append_nil] at whole
  rw [spanRow, whole]
  simp [afterQuotes, Json.placed]

/-- A search for a quoted start finds it in the words. -/
theorem hasKey_eq_yes_iff {start : String} (plainWord : PlainWord start.toList)
    (letter : ∃ c rest, start.toList = c :: rest ∧ c ∉ [':', ',', ']', '}']) :
    hasKey (spanRow printFloat s) start = .yes ↔
      ∃ word ∈ attributeWords s, ∃ rest ∈ word :: afterQuotes word, start.toList <+: rest := by
  rw [hasKey, Truth.ofBool_eq_yes, decide_eq_true_eq, strpos_pos_iff, afterQuotes_spanRow plain]
  rw [attributeWords, ← @membersPlaced_words printFloat []]
  simp only [List.mem_flatMap, List.mem_map]
  constructor
  · intro ⟨rest, ⟨p, listed, seen⟩, starts⟩
    unfold Placed.seen at seen
    rw [List.mem_append, List.mem_map, List.mem_singleton] at seen
    cases seen with
    | inl inWord =>
      obtain ⟨v, isRest, rfl⟩ := inWord
      exact ⟨p.1, ⟨p, listed, rfl⟩, v, isRest, (prefix_escaped_iff plainWord v p.2).mp starts⟩
    | inr behind =>
      obtain ⟨c, tail, isDelimited, delimiter⟩ := membersPlaced_delimited [] _ p listed
      obtain ⟨first, more, isStart, noDelimiter⟩ := letter
      rw [behind, isDelimited, isStart, List.cons_prefix_cons] at starts
      exact absurd (starts.1 ▸ delimiter) noDelimiter
  · intro ⟨word, ⟨p, listed, isWord⟩, v, isRest, starts⟩
    rw [← isWord] at isRest
    refine ⟨escaped v ++ '"' :: p.2, ⟨p, listed, ?_⟩, (prefix_escaped_iff plainWord v p.2).mpr starts⟩
    unfold Placed.seen
    rw [List.mem_append]
    exact .inl (List.mem_map_of_mem isRest)

theorem hasKeys_iff :
    hasKey (spanRow printFloat s) "gen_ai.request." = .yes ∨
        hasKey (spanRow printFloat s) "gen_ai.response." = .yes ∨
          hasKey (spanRow printFloat s) "gen_ai.usage." = .yes ↔
      (attributeWords s).any mentionsCall = true := by
  rw [hasKey_eq_yes_iff plain s (by simp [PlainWord, escapeChar]) ⟨'g', _, rfl, by simp⟩,
    hasKey_eq_yes_iff plain s (by simp [PlainWord, escapeChar]) ⟨'g', _, rfl, by simp⟩,
    hasKey_eq_yes_iff plain s (by simp [PlainWord, escapeChar]) ⟨'g', _, rfl, by simp⟩, List.any_eq_true]
  simp only [mentionsCall, isCallAttribute, startsWith, List.any_eq_true, Bool.or_eq_true,
    List.isPrefixOf_iff_prefix, String.toList_ofList, or_assoc, and_or_left, exists_or]

end Row

/-! ## The spans selected -/

/-- A model, or a key of a model call. -/
def looksLikeCall (s : NormalizedSpan) : Bool :=
  s.model.isSome || s.rawAttributes.keys.any isCallAttribute

/-- The kind says whether the span is a model call. -/
def kindDecides (s : NormalizedSpan) : Bool :=
  s.oiKind.any (fun k => eqIgnoreAsciiCase k "LLM" || notModelCalls.any (eqIgnoreAsciiCase k))

/-- The kind is `CHAIN`, but for an `i` without a dot. -/
def dotlessChain (s : NormalizedSpan) : Bool := s.oiKind.any (fun k => eqIgnoreAsciiCase k "CHAıN")

/-- The spans the condition selects. -/
def isSelected (s : NormalizedSpan) : Bool :=
  if s.oiKind.any (fun k => eqIgnoreAsciiCase k "LLM") then true
  else if s.oiKind.any (fun k => notModelCalls.any (eqIgnoreAsciiCase k)) || dotlessChain s
    then false
  else s.model.isSome || (attributeWords s).any mentionsCall

theorem mentionsCall_of_key {s : NormalizedSpan}
    (key : s.rawAttributes.keys.any isCallAttribute = true) :
    (attributeWords s).any mentionsCall = true := by
  obtain ⟨k, listed, isCall⟩ := List.any_eq_true.mp key
  have words (members : List (String × Json)) (listed : k ∈ members.map Prod.fst) :
      k.toList ∈ membersWords members := by
    induction members with
    | nil => cases listed
    | cons member members inductionHypothesis =>
      obtain ⟨key, value⟩ := member
      rw [membersWords, memberWords, List.mem_append]
      cases List.mem_cons.mp listed with
      | inl here => exact .inl (List.mem_cons.mpr (.inl (congrArg String.toList here)))
      | inr later => exact .inr (inductionHypothesis later)
  rw [List.any_eq_true]
  refine ⟨k.toList, words _ ?_, ?_⟩
  · rwa [Std.ExtTreeMap.map_fst_toList_eq_keys]
  · unfold mentionsCall
    simp [isCall]

theorem isLlmSpan_eq (s : NormalizedSpan) : isLlmSpan s =
    if s.oiKind.any (fun k => eqIgnoreAsciiCase k "LLM") then true
    else if s.oiKind.any (fun k => notModelCalls.any (eqIgnoreAsciiCase k)) then false
    else looksLikeCall s := by
  unfold isLlmSpan looksLikeCall
  cases s.oiKind <;> simp

section Selected

variable {printFloat : ℚ → List Char} (plain : PlainFloats printFloat)
  {upper : Char → List Char} (unicode : UnicodeUpper upper) (s : NormalizedSpan)
include plain unicode

theorem llmPredicate_eq_yes_iff :
    llmPredicate upper (spanRow printFloat s) = .yes ↔ isSelected s = true := by
  have keys := hasKeys_iff plain s
  unfold llmPredicate isSelected
  simp only [Truth.or_eq_yes, Truth.and_eq_yes, Truth.not_eq_yes, Truth.on_eq_yes, Truth.on_eq_no,
    Truth.ofBool_eq_yes, or_assoc, keys]
  unfold dotlessChain spanRow
  cases kind : s.oiKind with
  | none => simp
  | some k =>
    obtain ⟨llm, agent, tool, chain⟩ := unicode.upperText_eq_iff k
    simp [llm, agent, tool, chain, notModelCalls, and_assoc, and_left_comm, and_comm]

/-- The condition selects the model calls, and no other spans, where the kind decides; and where it
does not, as long as a search in the text finds no more than the keys. -/
theorem llmPredicate_iff :
    (llmPredicate upper (spanRow printFloat s) = .yes ↔ isLlmSpan s = true) ↔
      kindDecides s = true ∨
        if dotlessChain s then looksLikeCall s = false
        else looksLikeCall s = true ∨ (attributeWords s).any mentionsCall = false := by
  have found := mentionsCall_of_key (s := s)
  have decides : kindDecides s = (s.oiKind.any (fun k => eqIgnoreAsciiCase k "LLM") ||
      s.oiKind.any (fun k => notModelCalls.any (eqIgnoreAsciiCase k))) := by
    unfold kindDecides
    cases s.oiKind <;> simp
  rw [llmPredicate_eq_yes_iff plain unicode, isSelected, isLlmSpan_eq, decides, looksLikeCall]
  -- what is left is about truth values
  generalize s.oiKind.any (fun k => eqIgnoreAsciiCase k "LLM") = llm
  generalize s.oiKind.any (fun k => notModelCalls.any (eqIgnoreAsciiCase k)) = notCall
  generalize dotlessChain s = dotless
  generalize s.rawAttributes.keys.any isCallAttribute = key at found ⊢
  generalize (attributeWords s).any mentionsCall = mentioned at found ⊢
  generalize s.model.isSome = model
  cases llm with
  | true => simp
  | false =>
    cases notCall with
    | true => simp
    | false =>
      cases dotless with
      | true => simp
      | false => cases model <;> cases key <;> simp_all

end Selected

/-- The upper case of ASCII letters and of the `i` without a dot. -/
def letterUpper (c : Char) : List Char :=
  if c.toNat < 128 then [c.toUpper] else if c = 'ı' then ['I'] else [c]

/-- The decimals of a half; other doubles are not printed here. -/
def printHalf (_ : ℚ) : List Char := ['0', '.', '5']

theorem letterUpper_unicode : UnicodeUpper letterUpper where
  ascii c small := if_pos small
  dotless := rfl
  others c large notDotless := by
    refine ⟨c, by simp [letterUpper, notDotless, show ¬ c.toNat < 128 by omega], ?_⟩
    intro listed
    obtain ⟨-, small, -⟩ := kindLetter_spec c listed
    omega

theorem printHalf_plain : PlainFloats printHalf := by
  intro value c listed
  rw [printHalf, List.mem_cons, List.mem_cons, List.mem_singleton] at listed
  obtain rfl | rfl | rfl := listed <;> simp

/-- A span whose one attribute is a text with the name of a model call's attribute in it. -/
def promptSpan (prompt : String) : NormalizedSpan :=
  { traceId := "t", spanId := "s", startUnixNano := 0,
    rawAttributes := (∅ : Attributes).insert "input.value" (.str prompt) }

theorem llmPredicate_iff_prompt :
    (llmPredicate letterUpper (spanRow printHalf (promptSpan "hello")) = .yes ↔
        isLlmSpan (promptSpan "hello") = true) ↔
      kindDecides (promptSpan "hello") = true ∨
        if dotlessChain (promptSpan "hello") then looksLikeCall (promptSpan "hello") = false
        else looksLikeCall (promptSpan "hello") = true ∨
          (attributeWords (promptSpan "hello")).any mentionsCall = false :=
  llmPredicate_iff printHalf_plain letterUpper_unicode (promptSpan "hello")

/-- The condition takes a text for a key. -/
theorem prompt_is_selected :
    llmPredicate letterUpper (spanRow printHalf (promptSpan "gen_ai.request.model")) = .yes ∧
      isLlmSpan (promptSpan "gen_ai.request.model") = false := by
  constructor
  · decide
  · decide

end Evald.Latency
