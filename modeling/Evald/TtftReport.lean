import Evald.Lib.Capture
import Evald.LlmPredicate

/-! # Time to first token in the latency report

For each attribute name in turn, the report asks for the spans whose attributes show a number
under it, and takes the number out of their text; the times go to the groups that the limit
leaves in the report.  `ttftSeconds` reads the attributes themselves.  What the text shows is
`shown`, and the two agree where it is the span's own usable attribute, in a group of the report
(`latencyRows_iff`).
-/

namespace Evald.Latency

open Evald.Lib

/-! ## The queries -/

inductive Dimension where
  | model
  | provider
  | service

def Dimension.column (dimension : Dimension) (s : NormalizedSpan) : Option String :=
  match dimension with
  | .model => s.model
  | .provider => s.provider
  | .service => s.serviceName

/-- What a group is called in the report. -/
def Dimension.label (dimension : Dimension) (s : NormalizedSpan) : String :=
  (dimension.column s).getD "(untagged)"

/-- `-?[0-9]+(?:\.[0-9]+)?(?:[eE][+-]?[0-9]+)?` -/
def number : Regex :=
  Regex.concat
    [Regex.opt (.one (· = '-')), Regex.atLeast Char.isDigit 1,
      Regex.opt (.seq (.one (· = '.')) (Regex.atLeast Char.isDigit 1)),
      Regex.opt (.seq (.one (fun c => c = 'e' || c = 'E'))
        (.seq (Regex.opt (.one (fun c => c = '+' || c = '-'))) (Regex.atLeast Char.isDigit 1)))]

def quote : Regex := Regex.opt (.one (· = '"'))

/-- `\s*:\s*"?` -/
def colon : Regex :=
  Regex.concat [.many isWhitespace, .one (· = ':'), .many isWhitespace, quote]

/-- A name in its quotes. -/
def quotedName (key : String) : Regex := Regex.literal ("\"" ++ key ++ "\"")

/-- What a row has to show to be asked for. -/
def numbered (key : String) : Regex := Regex.concat [quotedName key, colon, number, quote]

/-- `regexp_replace` by the number; a text the pattern does not match stays as it is. -/
def extracted (key : String) (text : List Char) : List Char :=
  (Regex.group (Regex.concat [.many (fun _ => true), quotedName key, colon]) number
    (Regex.concat [quote, .many (fun _ => true)]) text).getD text

structure FoundRow where
  attribution : String
  id : String × String
  v : List Char

/-- A span is known by its trace and its span id. -/
def rowId (s : NormalizedSpan) : String × String := (s.traceId, s.spanId)

section Queries

-- how a double is printed, and the upper case of a character
variable (printFloat : ℚ → List Char) (upper : Char → List Char) (dimension : Dimension)

def selects (key : String) (row : SpanRow) : Truth :=
  ((llmPredicate upper row).and
    (.ofBool (0 < strpos row.rawAttributesJson ('"' :: (key.toList ++ ['"']))))).and
    (.ofBool ((numbered key).occursIn row.rawAttributesJson))

/-- The query for one name. -/
def foundRows (key : String) (rows : List NormalizedSpan) : List FoundRow :=
  (rows.filter (fun s => selects upper key (spanRow printFloat s) = .yes)).map (fun s =>
    { attribution := dimension.label s
      id := rowId s
      v := extracted key (spanRow printFloat s).rawAttributesJson })

end Queries

/-! ## The times of the report -/

structure Time where
  attribution : String
  id : String × String
  seconds : F64
  deriving DecidableEq

structure Times where
  seen : Finset (String × String) := ∅
  /-- In the order they are pushed, each under its attribution. -/
  taken : List Time := []

/-- The rows of one name the report will hold in memory. -/
def ttftRowCap : Nat := 10000000

section Report

variable (float : Floats) (printFloat : ℚ → List Char) (upper : Char → List Char)
  (dimension : Dimension)

/-- A span is counted once, under the first name it is found by. -/
def takeRow (factor : F64) (times : Times) (row : FoundRow) : Times :=
  if row.id ∈ times.seen then times
  else
    { seen := insert row.id times.seen
      taken :=
        match (readNumber float (.str (String.ofList row.v))).filter isUsable with
        | some v => times.taken ++ [⟨row.attribution, row.id, float.mul v factor⟩]
        | none => times.taken }

def takeName (rows : List NormalizedSpan) (times : Times) (name : String × F64) :
    Except String Times :=
  let found := foundRows printFloat upper dimension name.1 rows
  if ttftRowCap < found.length then
    .error ("more than " ++ toString ttftRowCap ++ " spans carry `" ++ name.1 ++
      "`; the time-to-first-token percentiles would be computed from a truncated set, so none" ++
      " are reported")
  else .ok (found.foldl (takeRow float name.2) times)

/-- The times to first token in the report. -/
def ttftTimes (rows : List NormalizedSpan) : Except String (List Time) :=
  (ttftAttrs.foldlM (takeName float printFloat upper dimension rows) {}).map Times.taken

/-! ### The groups -/

/-- A group of calls, by its label. -/
structure BaseRow where
  attribution : String
  spans : Nat
  errors : Nat

/-- `ORDER BY spans DESC, attribution` -/
def BaseRow.before (a b : BaseRow) : Prop :=
  b.spans < a.spans ∨ a.spans = b.spans ∧ a.attribution ≤ b.attribution

instance : DecidableRel BaseRow.before := fun _ _ => inferInstanceAs (Decidable (_ ∨ _))

/-- `GROUP BY` the raw column over the calls. -/
def baseRows (rows : List NormalizedSpan) : List BaseRow :=
  let calls := rows.filter (fun s => llmPredicate upper (spanRow printFloat s) = .yes)
  let groups := (calls.map dimension.column).dedup.map (fun value =>
    let group := calls.filter (fun s => dimension.column s = value)
    { attribution := value.getD "(untagged)"
      spans := group.length
      errors := (group.filter (fun s => s.statusCode = 2)).length : BaseRow })
  groups.insertionSort BaseRow.before

structure LatencyRow where
  attribution : String
  spans : Nat
  errors : Nat
  /-- What the percentiles to the first token are taken of. -/
  times : List Time
  ttftKnown : Nat
  ttftUnknown : Nat

/-- Each row takes the times of its label out; what no row takes is dropped. -/
def fillRows : List BaseRow → List Time → List LatencyRow
  | [], _ => []
  | base :: rest, times =>
    let own := times.filter (·.attribution = base.attribution)
    { attribution := base.attribution
      spans := base.spans
      errors := base.errors
      times := own
      ttftKnown := own.length
      ttftUnknown := base.spans - own.length } ::
        fillRows rest (times.filter (·.attribution ≠ base.attribution))

/-- The report: the largest groups, as many as the limit allows, with their times. -/
def latencyRows (limit : Nat) (rows : List NormalizedSpan) : Except String (List LatencyRow) :=
  (ttftTimes float printFloat upper dimension rows).map
    (fillRows ((baseRows printFloat upper dimension rows).take limit))

end Report

/-- The times that the rows of a report count. -/
def counted (report : List LatencyRow) : List Time := report.flatMap LatencyRow.times

/-! ## The number at the front of a text -/

/-- The characters of a number. -/
def numberChar (c : Char) : Bool := c.isDigit || ['-', '+', '.', 'e', 'E'].contains c

theorem number_rejects {c : Char} (other : numberChar c = false) : number.rejects c = true := by
  simp only [numberChar, Bool.or_eq_false_iff, List.contains_cons, List.contains_nil,
    beq_eq_false_iff_ne] at other
  simp [number, Regex.concat, Regex.opt, Regex.atLeast, Regex.times, Regex.rejects, other]

theorem number_consumes : number.consumes = true := by
  simp [number, Regex.concat, Regex.opt, Regex.atLeast, Regex.times, Regex.consumes]

theorem number_starts (c : Char) : number.starts c = (decide (c = '-') || c.isDigit) := by
  simp [number, Regex.concat, Regex.opt, Regex.atLeast, Regex.times, Regex.consumes, Regex.starts]

/-- The whole of a number is taken. -/
theorem number_greedy : number.Greedy := by
  unfold number Regex.concat
  have digitEnds {c : Char} (digit : c.isDigit = true) :
      c ≠ '.' ∧ c ≠ 'e' ∧ c ≠ 'E' := by
    refine ⟨?_, ?_, ?_⟩ <;> (rintro rfl; cases digit)
  simp only [List.foldr_cons, List.foldr_nil]
  apply Regex.Greedy.seq
  · apply Regex.StopsFor.opt (Regex.stopsFor_one _ _) rfl
    intro c sign
    have isSign : c = '-' := by simpa [Regex.starts] using sign
    rw [isSign]
    rfl
  apply Regex.Greedy.seq
  · apply Regex.stopsFor_atLeast_one
    intro c digit
    simp [Regex.starts, Regex.opt, Regex.consumes, digitEnds digit]
  apply Regex.Greedy.seq
  · apply Regex.StopsFor.opt _ rfl
    · intro c point
      have isPoint : c = '.' := by simpa [Regex.starts, Regex.consumes] using point
      rw [isPoint]
      rfl
    · apply Regex.StopsFor.one_seq
      apply Regex.stopsFor_atLeast_one
      intro c digit
      simp [Regex.starts, Regex.opt, Regex.consumes, digitEnds digit]
  apply Regex.Greedy.seq_empty
  apply Regex.Greedy.opt _ rfl
  apply Regex.Greedy.seq (Regex.stopsFor_one _ _)
  apply Regex.Greedy.seq _ (Regex.greedy_atLeast_one _)
  apply Regex.StopsFor.opt (Regex.stopsFor_one _ _) rfl
  intro c sign
  have isSign : c = '+' ∨ c = '-' := by simpa [Regex.starts] using sign
  obtain rfl | rfl := isSign <;> rfl

theorem number_int (i : ℤ) : number.Matches (toString i).toList := by
  rw [toList_toString_int]
  have digits : (Regex.atLeast Char.isDigit 1).Matches (Nat.toDigits 10 i.natAbs) := by
    apply Regex.matches_atLeast_one
    · exact List.ne_nil_of_length_pos Nat.length_toDigits_pos
    · intro c listed
      exact Nat.isDigit_of_mem_toDigits (by decide) (by decide) listed
  refine ⟨_, _, rfl, ?_, _, [], (List.append_nil _).symm, digits, [], [], rfl, .inr rfl, [], [],
    rfl, .inr rfl, rfl⟩
  split
  · exact .inl ⟨'-', rfl, rfl⟩
  · exact .inr rfl

theorem toNat_of_isDigit {c : Char} (digit : c.isDigit = true) : 48 ≤ c.toNat ∧ c.toNat ≤ 57 := by
  simp only [Char.isDigit, Bool.and_eq_true, decide_eq_true_eq] at digit
  exact digit

theorem escapeChar_numberChar {c : Char} (part : numberChar c = true) : escapeChar c = [c] := by
  simp only [numberChar, Bool.or_eq_true, List.contains_iff_mem, List.mem_cons, List.not_mem_nil,
    or_false] at part
  obtain digit | rfl | rfl | rfl | rfl | rfl := part
  · have large := (toNat_of_isDigit digit).1
    have differ (d : Char) (other : d.isDigit = false) : c ≠ d := by
      intro same
      rw [same, other] at digit
      cases digit
    unfold escapeChar
    rw [if_neg (differ '"' rfl), if_neg (differ '\\' rfl), if_neg (differ '\n' rfl),
      if_neg (differ '\r' rfl), if_neg (differ '\t' rfl), if_neg (by omega), if_neg (by omega),
      if_neg (by omega)]
  all_goals rfl

theorem escaped_append (text rest : List Char) :
    escaped (text ++ rest) = escaped text ++ escaped rest :=
  List.flatMap_append

/-- Behind the quote that opens a string stands the number the string starts with. -/
theorem lead_escaped (text rest : List Char) :
    number.lead (escaped text ++ '"' :: rest) = number.lead text := by
  have split := List.takeWhile_append_dropWhile (p := numberChar) (l := text)
  have plain : escaped (text.takeWhile numberChar) = text.takeWhile numberChar := by
    have single : ∀ c ∈ text.takeWhile numberChar, escapeChar c = [c] := by
      intro c listed
      exact escapeChar_numberChar (List.mem_takeWhile_imp listed)
    rw [escaped, List.flatMap_congr single, List.flatMap_singleton']
  cases behind : text.dropWhile numberChar with
  | nil =>
    rw [behind, List.append_nil] at split
    rw [split] at plain
    rw [plain, Regex.lead_append (number_rejects rfl)]
  | cons c more =>
    have other : numberChar c = false := by
      simpa [behind] using List.head?_dropWhile_not numberChar text
    rw [behind] at split
    -- what the character is written as does not go on with the number either
    obtain ⟨d, tail, written, stops⟩ :
        ∃ d tail, escapeChar c = d :: tail ∧ numberChar d = false := by
      obtain ⟨same, -⟩ | ⟨d, tail, escapes⟩ := escapeChar_cases c
      · exact ⟨c, [], same, other⟩
      · exact ⟨'\\', _, escapes, rfl⟩
    have escapedMore : escaped (c :: more) = d :: (tail ++ escaped more) := by
      rw [escaped, List.flatMap_cons, written, List.cons_append]
      rfl
    rw [← split, escaped_append, plain, escapedMore, List.append_assoc, List.cons_append,
      Regex.lead_append (number_rejects stops), Regex.lead_append (number_rejects other)]

/-! ## What the text shows -/

/-- The number behind a name's closing quote. -/
def behindName (rest : List Char) : Option (List Char) := (colon.rests rest).findSome? number.lead

/-- The number under a name, from behind a quote. -/
def behindQuote (key : String) (rest : List Char) : Option (List Char) :=
  if key.toList ++ ['"'] <+: rest then behindName (rest.drop (key.toList.length + 1)) else none

/-- What a value shows at its front. -/
def numberText (printFloat : ℚ → List Char) : Json → Option (List Char)
  | .int i => some (toString i).toList
  | .float q => some (printFloat q)
  | .str s => number.lead s.toList
  | _ => none

/-- A comma or a bracket: what stands behind a value. -/
def Ended (rest : List Char) : Prop := ∃ c tail, rest = c :: tail ∧ c ∈ [',', ']', '}']

theorem colon_rests {c : Char} (notSpace : isWhitespace c = false) (text : List Char) :
    colon.rests (':' :: c :: text) = if c = '"' then [text, c :: text] else [c :: text] := by
  by_cases isQuote : c = '"'
  · rw [isQuote]
    rfl
  · have notColon : isWhitespace ':' = false := by decide
    simp [colon, quote, Regex.concat, Regex.opt, Regex.rests, Regex.manyRests, notSpace, notColon,
      isQuote]

theorem number_lead_none {c : Char} (other : c ≠ '-') (noDigit : c.isDigit = false)
    (text : List Char) : number.lead (c :: text) = none := by
  apply Regex.lead_eq_none number_consumes
  rw [number_starts, noDigit]
  simpa using other

/-- A value that is no number and no string. -/
theorem behindName_none {c : Char} (notSpace : isWhitespace c = false) (notQuote : c ≠ '"')
    (other : c ≠ '-') (noDigit : c.isDigit = false) (text : List Char) :
    behindName (':' :: c :: text) = none := by
  rw [behindName, colon_rests notSpace, if_neg notQuote, List.findSome?_singleton,
    number_lead_none other noDigit]

theorem behindName_number {text rest : List Char} (isNumber : number.Matches text)
    (ended : Ended rest) : behindName (':' :: (text ++ rest)) = some text := by
  obtain ⟨d, tail, rfl, listed⟩ := ended
  have stops : numberChar d = false := by
    simp only [List.mem_cons, List.not_mem_nil, or_false] at listed
    obtain rfl | rfl | rfl := listed <;> rfl
  have taken : number.lead (text ++ d :: tail) = some text := by
    rw [Regex.lead_append (number_rejects stops), number_greedy.lead isNumber]
  cases text with
  | nil => exact absurd rfl (Regex.ne_nil_of_consumes number_consumes isNumber)
  | cons c text =>
    have first := Regex.starts_of_matches isNumber
    rw [number_starts, Bool.or_eq_true, decide_eq_true_eq] at first
    have plain : isWhitespace c = false ∧ c ≠ '"' := by
      cases first with
      | inl sign =>
        rw [sign]
        decide
      | inr digit =>
        have between := toNat_of_isDigit digit
        constructor
        · simp [isWhitespace]
          omega
        · intro isQuote
          rw [isQuote] at digit
          cases digit
    rw [List.cons_append] at taken ⊢
    rw [behindName, colon_rests plain.1, if_neg plain.2, List.findSome?_singleton, taken]

theorem behindName_ended {rest : List Char} (ended : Ended rest) : behindName rest = none := by
  obtain ⟨c, tail, rfl, listed⟩ := ended
  simp only [List.mem_cons, List.not_mem_nil, or_false] at listed
  obtain rfl | rfl | rfl := listed
  · rfl
  · rfl
  · rfl

/-- Behind a key stands the number its value shows. -/
theorem behindName_value {printFloat : ℚ → List Char} {value : Json} {rest : List Char}
    (numbers : ∀ q, value = .float q → number.Matches (printFloat q)) (ended : Ended rest) :
    behindName (':' :: (value.text printFloat ++ rest)) = numberText printFloat value := by
  cases value with
  | null => exact behindName_none (by decide) (by decide) (by decide) rfl _
  | bool b => cases b <;> exact behindName_none (by decide) (by decide) (by decide) rfl _
  | int i => exact behindName_number (number_int i) ended
  | float q => exact behindName_number (numbers q rfl) ended
  | str s =>
    rw [Json.text, quoted, List.cons_append, List.append_assoc, List.singleton_append, behindName,
      colon_rests (by decide), if_pos rfl, List.findSome?_cons, lead_escaped, numberText]
    cases number.lead s.toList with
    | none => rw [List.findSome?_singleton, number_lead_none (by decide) rfl]
    | some w => rfl
  | arr items => exact behindName_none (by decide) (by decide) (by decide) rfl _
  | obj members => exact behindName_none (by decide) (by decide) (by decide) rfl _

/-! ## The members of the attributes -/

mutual

/-- The members of a value, at any depth, in the order of the text. -/
def jsonFields : Json → List (String × Json)
  | .arr items => itemsFields items
  | .obj members => membersFields members
  | _ => []

def itemsFields : List Json → List (String × Json)
  | [] => []
  | item :: items => jsonFields item ++ itemsFields items

def membersFields : List (String × Json) → List (String × Json)
  | [] => []
  | member :: members => memberFields member ++ membersFields members

def memberFields : String × Json → List (String × Json)
  | (key, value) => (key, value) :: jsonFields value

end

/-- A key that is the name, or ends in it behind a quote. -/
def names (key : String) (word : List Char) : Bool := (word :: afterQuotes word).contains key.toList

section Fields

variable {printFloat : ℚ → List Char} {key : String}

variable (printFloat key) in
/-- The number a member shows under the name. -/
def fieldText (field : String × Json) : Option (List Char) :=
  if names key field.1.toList then numberText printFloat field.2 else none

variable (printFloat) in
/-- The doubles are printed as numbers. -/
def NumbersPrinted (fields : List (String × Json)) : Prop :=
  ∀ field ∈ fields, ∀ q, field.2 = .float q → number.Matches (printFloat q)

variable (key) in
/-- The number behind a word that the name ends. -/
def behindWord (p : Placed) : Option (List Char) := if names key p.1 then behindName p.2 else none

theorem ended_items (items : List Json) (rest : List Char) :
    Ended (itemsText printFloat false items ++ rest) := by
  cases items with
  | nil => exact ⟨']', _, rfl, by simp⟩
  | cons item items => exact ⟨',', _, rfl, by simp⟩

theorem ended_members (members : List (String × Json)) (rest : List Char) :
    Ended (membersText printFloat false members ++ rest) := by
  cases members with
  | nil => exact ⟨'}', _, rfl, by simp⟩
  | cons member members => exact ⟨',', _, rfl, by simp⟩

mutual

/-- Of the words of a value, the name is in front of a number only in the keys. -/
theorem placed_behindWord {rest : List Char} (ended : Ended rest) : ∀ value : Json,
    NumbersPrinted printFloat (jsonFields value) →
      (value.placed printFloat rest).filterMap (behindWord key) =
        (jsonFields value).filterMap (fieldText printFloat key)
  | .null | .bool _ | .int _ | .float _ => fun _ => rfl
  | .str s => fun _ => by
    have nothing : behindWord key (s.toList, rest) = none := by
      rw [behindWord, behindName_ended ended, ite_self]
    rw [Json.placed, List.filterMap_cons_none nothing]
    rfl
  | .arr items => itemsPlaced_behindWord items
  | .obj members => membersPlaced_behindWord members

theorem itemsPlaced_behindWord {rest : List Char} : ∀ items : List Json,
    NumbersPrinted printFloat (itemsFields items) →
      (itemsPlaced printFloat items rest).filterMap (behindWord key) =
        (itemsFields items).filterMap (fieldText printFloat key)
  | [] => fun _ => rfl
  | item :: items => fun printed => by
    rw [itemsFields, NumbersPrinted, List.forall_mem_append] at printed
    rw [itemsPlaced, itemsFields, List.filterMap_append, List.filterMap_append,
      placed_behindWord (ended_items items rest) item printed.1,
      itemsPlaced_behindWord items printed.2]

theorem membersPlaced_behindWord {rest : List Char} : ∀ members : List (String × Json),
    NumbersPrinted printFloat (membersFields members) →
      (membersPlaced printFloat members rest).filterMap (behindWord key) =
        (membersFields members).filterMap (fieldText printFloat key)
  | [] => fun _ => rfl
  | member :: members => fun printed => by
    rw [membersFields, NumbersPrinted, List.forall_mem_append] at printed
    rw [membersPlaced, membersFields, List.filterMap_append, List.filterMap_append,
      memberPlaced_behindWord (ended_members members rest) member printed.1,
      membersPlaced_behindWord members printed.2]

theorem memberPlaced_behindWord {rest : List Char} (ended : Ended rest) :
    ∀ member : String × Json, NumbersPrinted printFloat (memberFields member) →
      (memberPlaced printFloat member rest).filterMap (behindWord key) =
        (memberFields member).filterMap (fieldText printFloat key)
  | (name, value) => fun printed => by
    rw [memberFields, NumbersPrinted, List.forall_mem_cons] at printed
    have here : behindWord key (name.toList, ':' :: (value.text printFloat ++ rest)) =
        fieldText printFloat key (name, value) := by
      rw [behindWord, fieldText, behindName_value printed.1 ended]
    rw [memberPlaced, memberFields, List.filterMap_cons, List.filterMap_cons, here,
      placed_behindWord ended value printed.2]

end

/-! ## The number taken out -/

theorem length_afterQuotes {word rest : List Char} (listed : rest ∈ afterQuotes word) :
    rest.length < word.length := by
  induction word with
  | nil => cases listed
  | cons c word inductionHypothesis =>
    rw [afterQuotes] at listed
    split at listed
    · cases List.mem_cons.mp listed with
      | inl here => simp [here]
      | inr later => exact (inductionHypothesis later).trans (Nat.lt_succ_self _)
    · exact (inductionHypothesis listed).trans (Nat.lt_succ_self _)

theorem nodup_afterQuotes (word : List Char) : (word :: afterQuotes word).Nodup := by
  rw [List.nodup_cons]
  constructor
  · intro listed
    exact lt_irrefl _ (length_afterQuotes listed)
  · induction word with
    | nil => simp [afterQuotes]
    | cons c word inductionHypothesis =>
      rw [afterQuotes]
      split
      · rw [List.nodup_cons]
        refine ⟨?_, inductionHypothesis⟩
        intro listed
        exact lt_irrefl _ (length_afterQuotes listed)
      · exact inductionHypothesis

theorem filterMap_eq_of_nodup {α β : Type} [DecidableEq α] {l : List α} (distinct : l.Nodup) (k : α)
    (x : Option β) : l.filterMap (fun v => if v = k then x else none) =
      if k ∈ l then x.toList else [] := by
  induction l with
  | nil => rfl
  | cons v l inductionHypothesis =>
    rw [List.nodup_cons] at distinct
    rw [List.filterMap_cons, inductionHypothesis distinct.2]
    by_cases same : v = k
    · rw [same] at distinct ⊢
      rw [if_pos rfl, if_neg distinct.1, if_pos List.mem_cons_self]
      cases x <;> rfl
    · rw [if_neg same]
      simp [Ne.symm same]

/-- A name that is written as it is. -/
def PlainName (key : String) : Prop :=
  PlainWord key.toList ∧ key.toList ≠ [] ∧ ∀ c ∈ key.toList, c ∉ [':', ',', ']', '}']

theorem seen_behindQuote (plainName : PlainName key) {p : Placed} (delimited : Delimited p.2) :
    p.seen.filterMap (behindQuote key) = (behindWord key p).toList := by
  obtain ⟨plainWord, isName, noDelimiter⟩ := plainName
  have behind : behindQuote key p.2 = none := by
    obtain ⟨c, tail, isDelimited, delimiter⟩ := delimited
    unfold behindQuote
    apply if_neg
    cases isKey : key.toList with
    | nil => exact absurd isKey isName
    | cons first more =>
      rw [isDelimited, List.cons_append, List.cons_prefix_cons]
      intro start
      exact noDelimiter first (isKey ▸ List.mem_cons_self) (start.1 ▸ delimiter)
  have inWord : (behindQuote key) ∘ (fun v => escaped v ++ '"' :: p.2) =
      fun v => if v = key.toList then behindName p.2 else none := by
    funext v
    rw [Function.comp, behindQuote]
    by_cases same : v = key.toList
    · have written : escaped v ++ '"' :: p.2 = (key.toList ++ ['"']) ++ p.2 := by
        rw [List.append_assoc, List.singleton_append]
        exact (escaped_eq_iff plainWord v p.2 p.2).mpr ⟨same, rfl⟩
      rw [written, if_pos (List.prefix_append _ _), List.drop_left' (by simp), if_pos same]
    · rw [if_neg same]
      apply if_neg
      intro ⟨after, split⟩
      rw [List.append_assoc, List.singleton_append] at split
      exact same ((escaped_eq_iff plainWord v p.2 after).mp split.symm).1
  rw [Placed.seen, List.filterMap_append, List.filterMap_map, inWord,
    filterMap_eq_of_nodup (nodup_afterQuotes p.1), List.filterMap_cons_none behind, behindWord,
    names]
  simp only [List.contains_iff_mem, List.filterMap_nil, List.append_nil]
  split <;> rfl

/-- The number under a name, from its opening quote. -/
def atName (key : String) (tail : List Char) : Option (List Char) :=
  ((Regex.concat [quotedName key, colon]).rests tail).findSome? number.lead

theorem atName_eq (tail : List Char) : atName key tail =
    if '"' :: (key.toList ++ ['"']) <+: tail then
      behindName (tail.drop (key.toList.length + 2)) else none := by
  have spelled : ("\"" ++ key ++ "\"").toList = '"' :: (key.toList ++ ['"']) := by
    simp [String.toList_append]
  unfold atName behindName Regex.concat quotedName
  rw [List.foldr_cons, List.foldr_cons, List.foldr_nil, Regex.rests, Regex.rests_literal, spelled]
  split
  · simp [Regex.rests, List.flatMap_singleton']
  · rfl

theorem tails_atName (text : List Char) :
    text.tails.filterMap (atName key) = (afterQuotes text).filterMap (behindQuote key) := by
  have nothing (tail : List Char) (other : ¬ ['"'] <+: tail) : atName key tail = none := by
    rw [atName_eq]
    apply if_neg
    intro start
    exact other ((List.prefix_append ['"'] _).trans start)
  induction text with
  | nil =>
    rw [List.tails, List.filterMap_cons_none (nothing [] (by simp))]
    rfl
  | cons c text inductionHypothesis =>
    rw [List.tails_cons, afterQuotes]
    by_cases isQuote : c = '"'
    · have here : atName key (c :: text) = behindQuote key text := by
        rw [atName_eq, behindQuote, isQuote]
        simp only [List.cons_prefix_cons, true_and, List.drop_succ_cons]
      rw [if_pos isQuote, List.filterMap_cons, List.filterMap_cons, here, inductionHypothesis]
    · rw [if_neg isQuote, List.filterMap_cons_none (nothing _ (by simp [Ne.symm isQuote])),
        inductionHypothesis]

/-- The group takes the last number under the name. -/
theorem group_number (text : List Char) :
    Regex.group (Regex.concat [.many (fun _ => true), quotedName key, colon]) number
        (Regex.concat [quote, .many (fun _ => true)]) text =
      ((afterQuotes text).filterMap (behindQuote key)).getLast? := by
  have anything (w : List Char) : (Regex.concat [quote, .many (fun _ => true)]).Matches w :=
    ⟨[], w, rfl, .inr rfl, w, [], (List.append_nil w).symm, fun _ _ => rfl, rfl⟩
  rw [Regex.group_eq anything, Regex.rests_concat_cons, Regex.rests, Regex.manyRests_all,
    ← tails_atName, ← List.head?_reverse, ← List.filterMap_reverse, ← List.head?_filterMap,
    List.filterMap_flatMap, List.head?_flatMap, List.head?_filterMap]
  simp only [List.head?_filterMap]
  rfl

end Fields

/-! ## What a span shows -/

section Shown

variable (float : Floats)

/-- The number a value shows: its own, or the one it starts with. -/
def shownNumber : Json → Option (Option F64)
  | .int i => some (some (float.ofInt i))
  | .float q => some (some (.finite q))
  | .str s => (number.lead s.toList).map (fun w => readNumber float (.str (String.ofList w)))
  | _ => none

def fields (s : NormalizedSpan) : List (String × Json) := membersFields s.rawAttributes.toList

/-- What a span shows under a name, at any depth: the last of it counts. -/
def shown (key : String) (s : NormalizedSpan) : Option (Option F64) :=
  ((fields s).filterMap (fun field =>
    if names key field.1.toList then shownNumber float field.2 else none)).getLast?

-- how a double is printed
variable (printFloat : ℚ → List Char)

/-- The numbers of a span are read from the text as they are. -/
structure NumbersKept (s : NormalizedSpan) : Prop where
  int : ∀ key i, (key, .int i) ∈ fields s →
    readNumber float (.str (toString i)) = some (float.ofInt i)
  double : ∀ key q, (key, .float q) ∈ fields s → number.Matches (printFloat q) ∧
    readNumber float (.str (String.ofList (printFloat q))) = some (.finite q)

variable {float printFloat} {key : String}

theorem row_numbers (plain : PlainFloats printFloat) (plainName : PlainName key)
    {s : NormalizedSpan} (kept : NumbersKept float printFloat s) :
    (afterQuotes (spanRow printFloat s).rawAttributesJson).filterMap (behindQuote key) =
      (fields s).filterMap (fieldText printFloat key) := by
  have printed : NumbersPrinted printFloat (fields s) := by
    intro ⟨name, value⟩ listed q isFloat
    rw [show value = .float q from isFloat] at listed
    exact (kept.double name q listed).1
  rw [afterQuotes_spanRow plain, List.filterMap_flatMap]
  have each : ∀ p ∈ membersPlaced printFloat s.rawAttributes.toList [],
      p.seen.filterMap (behindQuote key) = (behindWord key p).toList :=
    fun p listed => seen_behindQuote plainName (membersPlaced_delimited [] _ p listed)
  rw [List.flatMap_congr each, ← List.filterMap_eq_flatMap_toList,
    membersPlaced_behindWord _ printed, fields]

/-- The number taken out of the text is the one the span shows. -/
theorem shown_eq (plain : PlainFloats printFloat) (plainName : PlainName key)
    {s : NormalizedSpan} (kept : NumbersKept float printFloat s) : shown float key s =
      (Regex.group (Regex.concat [.many (fun _ => true), quotedName key, colon]) number
        (Regex.concat [quote, .many (fun _ => true)]) (spanRow printFloat s).rawAttributesJson).map
        (fun w => readNumber float (.str (String.ofList w))) := by
  rw [group_number, row_numbers plain plainName kept, ← List.getLast?_map, List.map_filterMap,
    shown]
  congr 1
  apply List.filterMap_congr
  intro ⟨name, value⟩ listed
  unfold fieldText
  split
  · cases value with
    | int i =>
      simp only [numberText, shownNumber, Option.map_some, String.ofList_toList]
      rw [kept.int name i listed]
    | float q =>
      simp only [numberText, shownNumber, Option.map_some]
      rw [(kept.double name q listed).2]
    | str s => rfl
    | null => rfl
    | bool b => rfl
    | arr items => rfl
    | obj members => rfl
  · rfl

end Shown

/-! ## The pass over the rows -/

section Pass

variable {float : Floats} {printFloat : ℚ → List Char} {upper : Char → List Char}
  {dimension : Dimension}

/-- A row found by a name, with its factor. -/
abbrev Found := F64 × FoundRow

variable (plain : PlainFloats printFloat) (unicode : UnicodeUpper upper)
include plain unicode

omit plain unicode in
variable (float) in
/-- The names stand at the top of the attributes only, and each holds a time that can be used, as
a number or as a text that is one. -/
structure PlainTimes (s : NormalizedSpan) : Prop where
  top : ∀ name ∈ ttftAttrs, ∀ field ∈ fields s, names name.1 field.1.toList = true →
    s.rawAttributes[name.1]? = some field.2
  usable : ∀ name ∈ ttftAttrs, ∀ value, s.rawAttributes[name.1]? = some value →
    (readNumber float value).any isUsable = true ∧
      shownNumber float value = some (readNumber float value)

omit plain unicode in
theorem mem_membersFields {members : List (String × Json)} {member : String × Json}
    (listed : member ∈ members) : member ∈ membersFields members := by
  induction members with
  | nil => cases listed
  | cons other members inductionHypothesis =>
    rw [membersFields]
    cases List.mem_cons.mp listed with
    | inl here =>
      obtain ⟨key, value⟩ := other
      rw [here]
      exact List.mem_append_left _ List.mem_cons_self
    | inr later => exact List.mem_append_right _ (inductionHypothesis later)

omit plain unicode in
theorem PlainTimes.shown {s : NormalizedSpan} (times : PlainTimes float s) {name : String × F64}
    (listed : name ∈ ttftAttrs) :
    shown float name.1 s = (usableAt float s.rawAttributes name.1).map some := by
  unfold Latency.shown usableAt
  cases held : s.rawAttributes[name.1]? with
  | none =>
    have nothing : (fields s).filterMap (fun field =>
        if names name.1 field.1.toList then shownNumber float field.2 else none) = [] := by
      rw [List.filterMap_eq_nil_iff]
      intro field member
      refine if_neg fun named => ?_
      rw [times.top name listed field member named] at held
      cases held
    rw [nothing]
    rfl
  | some value =>
    obtain ⟨isTime, shows⟩ := times.usable name listed value held
    obtain ⟨w, read, isTime⟩ := (Option.any_eq_true _ _).mp isTime
    rw [read] at shows
    -- every match of the name is the one at the top
    have each : ∀ v ∈ (fields s).filterMap (fun field =>
        if names name.1 field.1.toList then shownNumber float field.2 else none), v = some w := by
      intro v member
      obtain ⟨field, inside, isShown⟩ := List.mem_filterMap.mp member
      split at isShown
      · next named =>
        rw [times.top name listed field inside named, Option.some.injEq] at held
        rw [held, shows] at isShown
        exact (Option.some.inj isShown).symm
      · cases isShown
    have atTop : (name.1, value) ∈ fields s := by
      have entry := Std.ExtTreeMap.mem_toList_iff_getElem?_eq_some.mpr held
      exact mem_membersFields entry
    have holds : some w ∈ (fields s).filterMap (fun field =>
        if names name.1 field.1.toList then shownNumber float field.2 else none) :=
      List.mem_filterMap.mpr ⟨_, atTop, by simp [names, shows]⟩
    obtain ⟨v, last⟩ := Option.isSome_iff_exists.mp
      (List.getLast?_isSome.mpr (List.ne_nil_of_mem holds))
    rw [last, each v (List.mem_of_getLast? last), Option.bind_some, read,
      Option.filter_some_pos isTime]
    rfl

end Pass

end Evald.Latency
