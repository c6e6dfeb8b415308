import Evald.JsonText
import Evald.Offload

/-! # Datasets

A dataset is a text with one item a line.  Spans with a captured output are curated into such
a text, and what is loaded from it is one item for each of them (`curated_loads`).
-/

namespace Evald.Eval

open Evald.Lib

/-- One row of a dataset. -/
structure DatasetItem where
  id : Option String := none
  input : Option String := none
  output : String
  expectedOutput : Option String := none
  spanId : Option String := none
  traceId : Option String := none
  /-- Retrieved passages. -/
  context : Option (List String) := none
  metadata : Option Json := none

/-! ## Loading -/

/-- The fields of an item, in the order of the structure. -/
def itemFields : List String :=
  ["id", "input", "output", "expected_output", "span_id", "trace_id", "context", "metadata"]

/-- A field of the value an item is read from: a member, or by its place. -/
def fieldOf (value : Json) (field : String) : Option Json :=
  match value with
  | .obj members => members.lookup field
  | .arr items => items[itemFields.idxOf field]?
  | _ => none

def optionalText : Option Json → Option (Option String)
  | none | some .null => some none
  | some (.str s) => some (some s)
  | _ => none

def optionalTexts : Option Json → Option (Option (List String))
  | none | some .null => some none
  | some (.arr items) => (items.mapM Json.asStr).map some
  | _ => none

def optionalValue : Option Json → Option Json
  | some .null => none
  | value => value

/-- An object, or a list of no more values than there are fields. -/
def isItem : Json → Bool
  | .obj members => itemFields.all (fun field => (members.filter (·.1 = field)).length ≤ 1)
  | .arr items => items.length ≤ itemFields.length
  | _ => false

def DatasetItem.ofJson (value : Json) : Option DatasetItem := do
  guard (isItem value)
  let id ← optionalText (fieldOf value "id")
  let input ← optionalText (fieldOf value "input")
  let output ← (fieldOf value "output").bind Json.asStr
  let expectedOutput ← optionalText (fieldOf value "expected_output")
  let spanId ← optionalText (fieldOf value "span_id")
  let traceId ← optionalText (fieldOf value "trace_id")
  let context ← optionalTexts (fieldOf value "context")
  pure
    { id, input, output, expectedOutput, spanId, traceId, context
      metadata := optionalValue (fieldOf value "metadata") }

section Load

-- a JSON text, with the members of an object in the order of the text
variable (readJson : String → Option Json)

/-- The items of the lines from a line number on; the number of a line that is no item. -/
def loadLines : Nat → List String → Except Nat (List DatasetItem)
  | _, [] => .ok []
  | i, line :: rest =>
    if (trim line).isEmpty then loadLines (i + 1) rest
    else
      match (readJson (trim line)).bind DatasetItem.ofJson with
      | none => .error (i + 1)
      | some item => (loadLines (i + 1) rest).map (item :: ·)

def loadDataset (text : String) : Except Nat (List DatasetItem) :=
  loadLines readJson 0 (lines text)

end Load

/-! ## Curating -/

def textOrNull (text : Option String) : Json := (text.map Json.str).getD .null

def rowMetadata (s : NormalizedSpan) : Json :=
  .obj [("model", textOrNull s.model), ("provider", textOrNull s.provider),
    ("service_name", textOrNull s.serviceName), ("session_id", textOrNull s.sessionId),
    ("start_unix_nano", .int s.startUnixNano)]

/-- The row of a span with an output; an absent input is left out. -/
def datasetRow (s : NormalizedSpan) (output : String) : Json :=
  .obj ((s.inputValue.map (fun input => ("input", Json.str input))).toList ++
    [("output", .str output), ("span_id", .str s.spanId), ("trace_id", .str s.traceId),
      ("metadata", rowMetadata s)])

structure Curated where
  jsonl : List Char := []
  written : Nat := 0
  skipped : Nat := 0

section Curate

-- how a double is printed
variable (printFloat : ℚ → List Char)

def curateSpan (modelFilter : Option String) (done : Curated) (s : NormalizedSpan) : Curated :=
  if modelFilter.any (fun m => s.model ≠ some m) then done
  else
    match s.outputValue.filter (fun output => !output.isEmpty) with
    | none => { done with skipped := done.skipped + 1 }
    | some output =>
      { done with
        jsonl := done.jsonl ++ ((datasetRow s output).text printFloat ++ ['\n'])
        written := done.written + 1 }

/-- The rows as text, how many there are, and how many spans had no output. -/
def rowsFromSpans (spans : List NormalizedSpan) (modelFilter : Option String) : Curated :=
  spans.foldl (curateSpan printFloat modelFilter) {}

/-- The span with the texts its references stand for. -/
def resolveBlobs (store : Blob.BlobStore) (s : NormalizedSpan) : NormalizedSpan :=
  { s with
    inputValue := Blob.resolveBlobRef store s.inputValue
    outputValue := Blob.resolveBlobRef store s.outputValue }

/-- The dataset of some stored spans, their payloads inline or in the blob store. -/
def fromSpans (store : Blob.BlobStore) (spans : List NormalizedSpan)
    (modelFilter : Option String) : Curated :=
  rowsFromSpans printFloat (spans.map (resolveBlobs store)) modelFilter

end Curate

/-! ## One line a row -/

theorem newline_escaped (text : List Char) : '\n' ∉ escaped text := by
  unfold escaped
  intro listed
  obtain ⟨c, -, written⟩ := List.mem_flatMap.mp listed
  have digit {n : Nat} (small : n < 16) : '\n' ≠ hexDigit n := by
    interval_cases n <;> decide
  unfold escapeChar at written
  split_ifs at written with _ _ newline _ _ _ _ control
  all_goals simp at written
  · exact written.elim (digit (by omega)) (digit (Nat.mod_lt _ (by omega)))
  · exact newline written.symm

theorem newline_quoted (text : List Char) : '\n' ∉ quoted text := by
  simp [quoted, newline_escaped]

section Line

variable {printFloat : ℚ → List Char}

theorem newline_membersText {members : List (String × Json)} (first : Bool)
    (oneLine : ∀ member ∈ members, '\n' ∉ member.2.text printFloat) :
    '\n' ∉ membersText printFloat first members := by
  induction members generalizing first with
  | nil => simp [membersText]
  | cons member members inductionHypothesis =>
    obtain ⟨key, value⟩ := member
    rw [List.forall_mem_cons] at oneLine
    rw [membersText, memberText]
    have here := oneLine.1
    have later := inductionHypothesis false oneLine.2
    cases first <;> simp [newline_quoted, here, later]

theorem newline_textOrNull (text : Option String) : '\n' ∉ (textOrNull text).text printFloat := by
  cases text with
  | none =>
    show '\n' ∉ "null".toList
    simp
  | some text => exact newline_quoted _

theorem newline_row (s : NormalizedSpan) (output : String) :
    '\n' ∉ (datasetRow s output).text printFloat := by
  have ofObject {members : List (String × Json)}
      (oneLine : ∀ member ∈ members, '\n' ∉ member.2.text printFloat) :
      '\n' ∉ (Json.obj members).text printFloat := by
    rw [Json.text, List.mem_cons, not_or]
    exact ⟨by decide, newline_membersText true oneLine⟩
  have ofText (text : String) : '\n' ∉ (Json.str text).text printFloat := newline_quoted _
  have metadata : '\n' ∉ (rowMetadata s).text printFloat := by
    apply ofObject
    simp only [List.forall_mem_cons, List.not_mem_nil, false_implies, implies_true, and_true]
    refine ⟨newline_textOrNull _, newline_textOrNull _, newline_textOrNull _, newline_textOrNull _, ?_⟩
    intro listed
    rw [Json.text, toList_toString_int, List.mem_append] at listed
    cases listed with
    | inl sign => split at sign <;> simp at sign
    | inr digit =>
      exact absurd (Nat.isDigit_of_mem_toDigits (by decide) (by decide) digit) (by decide)
  apply ofObject
  intro member listed
  simp only [List.mem_append, Option.mem_toList, Option.map_eq_some_iff, List.mem_cons,
    List.not_mem_nil, or_false] at listed
  obtain ⟨input, -, rfl⟩ | rfl | rfl | rfl | rfl := listed
  · exact ofText input
  · exact ofText output
  · exact ofText s.spanId
  · exact ofText s.traceId
  · exact metadata

variable (printFloat) in
theorem membersText_closed (first : Bool) (members : List (String × Json)) :
    ∃ w, membersText printFloat first members = w ++ ['}'] := by
  induction members generalizing first with
  | nil => exact ⟨[], rfl⟩
  | cons member members inductionHypothesis =>
    obtain ⟨w, closed⟩ := inductionHypothesis false
    rw [membersText, closed]
    exact ⟨_, by rw [← List.append_assoc, ← List.append_assoc]⟩

/-- A text between braces has no white space at its ends. -/
theorem trim_braced (w : List Char) : trim (String.ofList ('{' :: (w ++ ['}']))) =
    String.ofList ('{' :: (w ++ ['}'])) := by
  have start : isWhitespace '{' = false := by decide
  have stop : isWhitespace '}' = false := by decide
  unfold trim
  simp [start, stop]

end Line

/-- Lines that end in a newline each. -/
theorem lines_flatMap {ls : List (List Char)}
    (oneLine : ∀ l ∈ ls, '\n' ∉ l ∧ l.getLast? ≠ some '\r') :
    lines (String.ofList (ls.flatMap (fun l => l ++ ['\n']))) = ls.map String.ofList := by
  have split : (ls.flatMap (fun l => l ++ ['\n'])).splitOn '\n' = ls ++ [[]] := by
    induction ls with
    | nil => rfl
    | cons l ls inductionHypothesis =>
      rw [List.forall_mem_cons] at oneLine
      rw [List.flatMap_cons, List.append_assoc, List.singleton_append,
        List.splitOn_append_cons_self, inductionHypothesis oneLine.2,
        List.splitOn_eq_singleton oneLine.1.1, List.singleton_append, List.cons_append]
  have kept : ls.map stripCarriageReturn = ls := by
    conv_rhs => rw [← List.map_id ls]
    apply List.map_congr_left
    intro l listed
    exact if_neg (oneLine l listed).2
  unfold lines
  rw [String.toList_ofList, split]
  simp [kept]

/-! ## Loading what was curated -/

/-- A span of the model that was asked for, with an output that is not empty. -/
def curated (modelFilter : Option String) (s : NormalizedSpan) : Option (NormalizedSpan × String) :=
  if modelFilter.any (fun m => s.model ≠ some m) then none
  else (s.outputValue.filter (fun output => !output.isEmpty)).map (fun output => (s, output))

/-- The item of a span. -/
def curatedItem (row : NormalizedSpan × String) : DatasetItem :=
  { input := row.1.inputValue
    output := row.2
    spanId := some row.1.spanId
    traceId := some row.1.traceId
    metadata := some (rowMetadata row.1) }

section Loads

variable {printFloat : ℚ → List Char} {readJson : String → Option Json}

variable (printFloat) in
theorem curateSpan_eq (modelFilter : Option String) (done : Curated) (s : NormalizedSpan) :
    (curateSpan printFloat modelFilter done s).jsonl = done.jsonl ++
        ((curated modelFilter s).toList.flatMap (fun row =>
          (datasetRow row.1 row.2).text printFloat ++ ['\n'])) ∧
      (curateSpan printFloat modelFilter done s).written =
        done.written + (curated modelFilter s).toList.length := by
  unfold curateSpan curated
  split
  · simp
  · cases s.outputValue.filter (fun output => !output.isEmpty) with
    | none => simp
    | some output => simp

variable (printFloat) in
/-- The text has a line for each row. -/
theorem rowsFromSpans_eq (spans : List NormalizedSpan) (modelFilter : Option String) :
    (rowsFromSpans printFloat spans modelFilter).jsonl =
        ((spans.filterMap (curated modelFilter)).map (fun row =>
          (datasetRow row.1 row.2).text printFloat)).flatMap (fun l => l ++ ['\n']) ∧
      (rowsFromSpans printFloat spans modelFilter).written =
        (spans.filterMap (curated modelFilter)).length := by
  unfold rowsFromSpans
  induction spans using List.reverseRecOn with
  | nil => exact ⟨rfl, rfl⟩
  | append_singleton spans s inductionHypothesis =>
    have last : [s].filterMap (curated modelFilter) = (curated modelFilter s).toList := by
      cases found : curated modelFilter s <;> simp [found]
    obtain ⟨jsonl, written⟩ := curateSpan_eq printFloat modelFilter
      (spans.foldl (curateSpan printFloat modelFilter) {}) s
    rw [List.foldl_append, List.foldl_cons, List.foldl_nil, jsonl, written, inductionHypothesis.1,
      inductionHypothesis.2, List.filterMap_append, last, List.map_append, List.flatMap_append,
      List.length_append, List.flatMap_map, List.flatMap_map]
    exact ⟨rfl, rfl⟩

/-- The value of a row reads as the item of its span. -/
theorem ofJson_datasetRow (row : NormalizedSpan × String) :
    DatasetItem.ofJson (datasetRow row.1 row.2) = some (curatedItem row) := by
  obtain ⟨s, output⟩ := row
  cases input : s.inputValue with
  | none =>
    simp [DatasetItem.ofJson, datasetRow, input, isItem, itemFields, fieldOf, List.lookup, optionalText,
      optionalTexts, optionalValue, rowMetadata, curatedItem, Json.asStr]
  | some text =>
    simp [DatasetItem.ofJson, datasetRow, input, isItem, itemFields, fieldOf, List.lookup, optionalText,
      optionalTexts, optionalValue, rowMetadata, curatedItem, Json.asStr]

variable (printFloat) in
theorem row_line (row : NormalizedSpan × String) :
    ∃ w, (datasetRow row.1 row.2).text printFloat = '{' :: (w ++ ['}']) := by
  obtain ⟨w, closed⟩ := membersText_closed printFloat true
    ((row.1.inputValue.map (fun input => ("input", Json.str input))).toList ++
      [("output", .str row.2), ("span_id", .str row.1.spanId), ("trace_id", .str row.1.traceId),
        ("metadata", rowMetadata row.1)])
  exact ⟨w, by rw [datasetRow, Json.text, closed]⟩

theorem loadLines_rows (i : Nat) {rows : List (NormalizedSpan × String)}
    (reads : ∀ row ∈ rows, readJson (String.ofList ((datasetRow row.1 row.2).text printFloat)) =
      some (datasetRow row.1 row.2)) :
    loadLines readJson i (rows.map (fun row =>
      String.ofList ((datasetRow row.1 row.2).text printFloat))) = .ok (rows.map curatedItem) := by
  induction rows generalizing i with
  | nil => rfl
  | cons row rows inductionHypothesis =>
    rw [List.forall_mem_cons] at reads
    obtain ⟨w, braced⟩ := row_line printFloat row
    have trimmed : trim (String.ofList ((datasetRow row.1 row.2).text printFloat)) =
        String.ofList ((datasetRow row.1 row.2).text printFloat) := by
      rw [braced, trim_braced]
    have written : (String.ofList ((datasetRow row.1 row.2).text printFloat)).isEmpty = false := by
      rw [braced]
      simp
    rw [List.map_cons, loadLines, trimmed, written, reads.1, Option.bind_some, ofJson_datasetRow]
    simp only [Bool.false_eq_true, if_false, inductionHypothesis _ reads.2]
    rfl

/-- What is curated loads back: one item for each row, in order. -/
theorem curated_loads (spans : List NormalizedSpan) (modelFilter : Option String)
    (reads : ∀ row ∈ spans.filterMap (curated modelFilter),
      readJson (String.ofList ((datasetRow row.1 row.2).text printFloat)) =
        some (datasetRow row.1 row.2)) :
    loadDataset readJson (String.ofList (rowsFromSpans printFloat spans modelFilter).jsonl) =
        .ok ((spans.filterMap (curated modelFilter)).map curatedItem) ∧
      (rowsFromSpans printFloat spans modelFilter).written =
        (spans.filterMap (curated modelFilter)).length := by
  obtain ⟨jsonl, written⟩ := rowsFromSpans_eq printFloat spans modelFilter
  refine ⟨?_, written⟩
  have oneLine : ∀ l ∈ (spans.filterMap (curated modelFilter)).map (fun row =>
      (datasetRow row.1 row.2).text printFloat), '\n' ∉ l ∧ l.getLast? ≠ some '\r' := by
    intro l listed
    obtain ⟨row, -, rfl⟩ := List.mem_map.mp listed
    obtain ⟨w, braced⟩ := row_line printFloat row
    refine ⟨newline_row row.1 row.2, ?_⟩
    rw [braced, ← List.cons_append, List.getLast?_append_of_ne_nil _ (by simp)]
    simp
  rw [jsonl, loadDataset, lines_flatMap oneLine, List.map_map]
  exact loadLines_rows 0 reads

/-! ## Offloaded payloads -/

/-- What a dataset row is made of. -/
def rowFields (s : NormalizedSpan) :=
  (s.inputValue, s.outputValue, s.spanId, s.traceId, s.model, s.provider, s.serviceName, s.sessionId,
    s.startUnixNano)

theorem rowsFromSpans_congr {spans spans' : List NormalizedSpan} {modelFilter : Option String}
    (same : spans.map rowFields = spans'.map rowFields) :
    rowsFromSpans printFloat spans modelFilter = rowsFromSpans printFloat spans' modelFilter := by
  unfold rowsFromSpans
  generalize ({} : Curated) = done
  induction spans generalizing spans' done with
  | nil =>
    have none : spans' = [] := by simpa using same.symm
    rw [none]
  | cons s spans inductionHypothesis =>
    cases spans' with
    | nil => exact absurd same (by simp)
    | cons s' spans' =>
      rw [List.map_cons, List.map_cons, List.cons.injEq] at same
      obtain ⟨here, rest⟩ := same
      have step : curateSpan printFloat modelFilter done s = curateSpan printFloat modelFilter done s' := by
        simp only [rowFields, Prod.mk.injEq] at here
        obtain ⟨input, output, spanId, traceId, model, provider, serviceName, sessionId, start⟩ := here
        unfold curateSpan datasetRow rowMetadata
        rw [input, output, spanId, traceId, model, provider, serviceName, sessionId, start]
      rw [List.foldl_cons, List.foldl_cons, step]
      exact inductionHypothesis rest _

/-- A dataset of spans whose payloads were offloaded is the dataset of the spans themselves. -/
theorem fromSpans_offloaded (hash : List UInt8 → UInt64) (cap : Nat)
    (spans : List (NormalizedSpan × (String → Blob.Disk))) (store later : Blob.BlobStore)
    (modelFilter : Option String)
    (plain : ∀ given ∈ spans, ∀ text, given.1.inputValue = some text ∨
      given.1.outputValue = some text → startsWith text Blob.refPrefix = false)
    (grown : Extends later.fetch (Blob.offloadLargePayloads hash spans store cap).2.1.fetch) :
    fromSpans printFloat later (Blob.offloadLargePayloads hash spans store cap).1 modelFilter =
      rowsFromSpans printFloat (spans.map Prod.fst) modelFilter := by
  apply rowsFromSpans_congr
  have length : (Blob.offloadLargePayloads hash spans store cap).1.length = spans.length :=
    Blob.length_offloadLargePayloads hash cap spans store
  apply List.ext_getElem?
  intro i
  rw [List.map_map, List.map_map, List.getElem?_map, List.getElem?_map]
  cases given : spans[i]? with
  | none =>
    rw [List.getElem?_eq_none (by rw [length]; exact List.getElem?_eq_none_iff.mp given)]
    rfl
  | some pair =>
    obtain ⟨before, disk⟩ := pair
    have bound := (List.getElem?_eq_some_iff.mp given).1
    have result := List.getElem?_eq_getElem (l := (Blob.offloadLargePayloads hash spans store cap).1)
      (i := i) (by omega)
    obtain ⟨input, output, -, rest⟩ :=
      Blob.offloadLargePayloads_read hash cap spans store later given result grown
    have texts := plain _ (List.mem_of_getElem? given)
    have readInput := input.read (.inr fun text spelled => texts text (.inl spelled))
    have readOutput := output.read (.inr fun text spelled => texts text (.inr spelled))
    rw [result]
    simp only [Option.map_some, Function.comp_apply, rowFields, resolveBlobs, readInput, readOutput]
    rw [← rest]

end Loads

/-! A span with a line break in its prompt, and one whose output is not ASCII. -/

def askedSpan : NormalizedSpan where
  traceId := "01"
  spanId := "02"
  startUnixNano := 1700000000000000000
  model := some "gpt-4o"
  inputValue := some "two\r\nlines"
  outputValue := some "fine"

def answeredSpan : NormalizedSpan where
  traceId := "01"
  spanId := "03"
  startUnixNano := 1700000000000000001
  outputValue := some "añb"

/-- The value of either row's text. -/
def readRows (printFloat : ℚ → List Char) (text : String) : Option Json :=
  if text = String.ofList ((datasetRow askedSpan "fine").text printFloat) then
    some (datasetRow askedSpan "fine")
  else if text = String.ofList ((datasetRow answeredSpan "añb").text printFloat) then
    some (datasetRow answeredSpan "añb")
  else none

theorem curated_loads_twoSpans :
    (loadDataset (readRows (fun _ => ['0', '.', '5']))
      (String.ofList (rowsFromSpans (fun _ => ['0', '.', '5']) [askedSpan, answeredSpan] none).jsonl)) =
        .ok [curatedItem (askedSpan, "fine"), curatedItem (answeredSpan, "añb")] := by
  have rows : [askedSpan, answeredSpan].filterMap (curated none) =
      [(askedSpan, "fine"), (answeredSpan, "añb")] := by rfl
  have apart : (datasetRow answeredSpan "añb").text (fun _ => ['0', '.', '5']) ≠
      (datasetRow askedSpan "fine").text (fun _ => ['0', '.', '5']) := by
    decide
  have loads := @curated_loads (fun _ => ['0', '.', '5']) (readRows (fun _ => ['0', '.', '5']))
    [askedSpan, answeredSpan] none
  rw [rows] at loads
  refine (loads ?_).1
  intro row listed
  rw [List.mem_cons, List.mem_singleton] at listed
  obtain rfl | rfl := listed
  · rw [readRows, if_pos rfl]
  · rw [readRows, if_neg (fun same => apart (String.ofList_injective same)), if_pos rfl]

end Evald.Eval
