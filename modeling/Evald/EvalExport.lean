import Evald.EvalEvent
import Evald.JsonText
import Evald.Lib.Trim
import Evald.Lib.Utf8

/-! # Evaluation results, out

A stored score is written back as the event it may have come from.  What is read from such
a line is the score that was written, unless a cut left white space at the end of its name
or its label, the error type no longer fits behind the explanation, or the decimal text of its
number is that of another double to the parser (`export_reads_back_iff`).
-/

namespace Evald.EvalEvent

open Evald.Lib Evald.Otlp Evald.Normalize

/-- A number as `json!` has it. -/
def jsonOfF64 : F64 → Json
  | .finite q => .float q
  | _ => .null

/-- The attribute map, in key order. -/
def exportAttributes (score : Score) : List (String × Json) :=
  (score.comment.map (fun c => (explanationKey, Json.str c))).toList ++
  [(nameKey, .str score.name)] ++
  (score.strValue.map (fun l => (labelKey, Json.str l))).toList ++
  (score.numValue.map (fun v => (valueKey, jsonOfF64 v))).toList

/-- A score as the event; a run and a session have no operation to parent it to. -/
def exportEvent (score : Score) : Option Json :=
  let event (parent : String × Json) : Json :=
    .obj [("attributes", .obj (exportAttributes score)), ("name", .str eventName), parent,
      ("time_unix_nano", .int score.tsUnixNano)]
  match score.target with
  | .span s => some (event ("span_id", .str s))
  | .trace t => some (event ("trace_id", .str t))
  | _ => none

def exportLine (deps : Deps) (score : Score) : Option String :=
  (exportEvent score).map deps.renderJson

/-! ## Reading a line -/

/-- A JSON scalar as the value of an attribute. -/
def attributeValue : Json → Option AnyValue
  | .str s => some (.string s)
  | .float q => some (.double (.finite q))
  | .int i => some (.int i)
  | .bool b => some (.bool b)
  | _ => none

/-- The attribute map of an event, as attributes. -/
def eventAttributes : Json → List KeyValue
  | .obj members =>
    match members.lookup "attributes" with
    | some (.obj attributes) => attributes.map (fun (k, v) => .mk k (attributeValue v))
    | _ => []
  | _ => []

def lineAttributes (deps : Deps) (line : String) : List KeyValue :=
  ((deps.parseJson line).map eventAttributes).getD []

/-- A score whose number is read from its own decimal text: texts come back from JSON as they
were, a double as what `number` makes of its text, if it makes anything of it. -/
def reread (number : ℚ → Option ℚ) (score : Score) : Option Score :=
  match score.numValue with
  | some (.finite q) => (number q).map fun r => { score with numValue := some (.finite r) }
  | _ => some score

/-! ## Cutting -/

theorem capChars_prefix (max : Nat) (chars : List Char) : capChars max chars <+: chars := by
  induction chars generalizing max with
  | nil => exact List.nil_prefix
  | cons c chars inductionHypothesis =>
    unfold capChars
    split
    · exact List.prefix_cons_inj c |>.mpr (inductionHypothesis _)
    · exact List.nil_prefix

theorem byteLength_capChars (max : Nat) (chars : List Char) :
    byteLength (capChars max chars) ≤ max := by
  induction chars generalizing max with
  | nil => exact Nat.zero_le _
  | cons c chars inductionHypothesis =>
    unfold capChars
    split
    · next fits =>
      have rest := inductionHypothesis (max - c.utf8Size)
      rw [byteLength_cons]
      omega
    · exact Nat.zero_le _

/-- What fits is kept, and what is behind it gets what is left. -/
theorem capChars_append {max : Nat} {front : List Char} (fits : byteLength front ≤ max)
    (rest : List Char) :
    capChars max (front ++ rest) = front ++ capChars (max - byteLength front) rest := by
  induction front generalizing max with
  | nil => rfl
  | cons c front inductionHypothesis =>
    rw [byteLength_cons] at fits
    rw [List.cons_append, capChars, if_pos (by omega), inductionHypothesis (by omega),
      byteLength_cons, Nat.sub_sub]
    rfl

theorem capChars_of_fits {max : Nat} {chars : List Char} (fits : byteLength chars ≤ max) :
    capChars max chars = chars := by
  have whole := capChars_append fits []
  rwa [List.append_nil, capChars, List.append_nil] at whole

@[simp] theorem toList_cap (s : String) (max : Nat) : (cap s max).toList = capChars max s.toList :=
  String.toList_ofList

/-- A text is left alone exactly when it fits. -/
theorem cap_eq_self_iff {s : String} {max : Nat} : cap s max = s ↔ byteLength s.toList ≤ max := by
  constructor
  · intro same
    have bounded := byteLength_capChars max s.toList
    rwa [← toList_cap, same] at bounded
  · intro fits
    rw [cap, capChars_of_fits fits, String.ofList_toList]

theorem cap_trim_cap (s : String) (max : Nat) : cap (trim (cap s max)) max = trim (cap s max) := by
  rw [cap_eq_self_iff]
  have bounded := byteLength_capChars max s.toList
  have shorter := byteLength_sublist (trim_sublist (cap s max))
  rw [toList_cap] at shorter
  omega

/-- A character takes at most four bytes, so something is left of a text that is not empty. -/
theorem cap_ne_empty {s : String} {max : Nat} (nonempty : s ≠ "") (wide : 4 ≤ max) :
    cap s max ≠ "" := by
  obtain ⟨c, chars, isText⟩ := List.exists_cons_of_ne_nil
    (fun empty => nonempty (String.toList_eq_nil_iff.mp empty))
  have narrow := Char.utf8Size_le_four c
  intro empty
  have nothing : capChars max s.toList = [] := by rw [← toList_cap, empty, String.toList_empty]
  rw [isText, capChars, if_pos (by omega)] at nothing
  cases nothing

/-- Something is left of a cut trimmed text after it is trimmed again. -/
theorem trim_cap_ne_empty {s : String} {max : Nat} (nonempty : cap (trim s) max ≠ "") :
    trim (cap (trim s) max) ≠ "" := by
  obtain ⟨c, chars, isCut⟩ := List.exists_cons_of_ne_nil
    (fun empty => nonempty (String.toList_eq_nil_iff.mp empty))
  have start := capChars_prefix max (trim s).toList
  rw [← toList_cap, isCut] at start
  have plain : isWhitespace c = false := (trimmed_trim s).start c (by
    obtain ⟨rest, split⟩ := start
    rw [← split]
    rfl)
  intro empty
  have kept : c ∈ (trim (cap (trim s) max)).toList := mem_trim (by simp [isCut]) plain
  rw [empty] at kept
  cases kept

/-! ## What is written -/

section Written

variable {deps : Deps} {traceId spanId : List UInt8} {a : List KeyValue} {idTime ts : Nat}
  {score : Score}

/-- A capped text attribute is a cut of the trimmed one, and not empty. -/
theorem capped_eq_some {key : String} {max : Nat} {text : String} :
    capped deps a key max = some text ↔
      ∃ s, attrStr deps a key = some s ∧ text = cap (trim s) max ∧ text ≠ "" := by
  unfold capped
  rw [Option.filter_eq_some_iff, Option.map_eq_some_iff, decide_eq_true_eq]
  constructor
  · rintro ⟨⟨s, isText, rfl⟩, nonempty⟩
    exact ⟨s, isText, rfl, nonempty⟩
  · rintro ⟨s, isText, rfl, nonempty⟩
    exact ⟨⟨s, isText, rfl⟩, nonempty⟩

/-- A non-empty cut of a trimmed text. -/
def IsCut (max : Nat) (text : String) : Prop := ∃ s, text = cap (trim s) max ∧ text ≠ ""

theorem IsCut.trim {max : Nat} {text : String} (cut : IsCut max text) :
    cap (trim text) max = trim text ∧ trim text ≠ "" := by
  obtain ⟨s, rfl, nonempty⟩ := cut
  exact ⟨cap_trim_cap _ _, trim_cap_ne_empty nonempty⟩

/-- What every score of an event is like. -/
structure Written (score : Score) : Prop where
  name : IsCut maxName score.name
  number : ∀ v, score.numValue = some v → ∃ q, v = .finite q
  label : ∀ l, score.strValue = some l → IsCut maxLabel l
  kind : score.dataType = if score.numValue.isSome then .numeric else .categorical
  value : score.numValue = none → score.strValue.isSome
  comment : score.comment ≠ some ""

theorem isCut_error : IsCut maxLabel "error" := ⟨"error", by decide, by decide⟩

theorem scoreComment_ne_empty {explanation errorType : Option String}
    (nonempty : explanation ≠ some "") :
    scoreComment explanation errorType ≠ some "" := by
  have long (front rest : String) (filled : front ≠ "") : front ++ rest ≠ "" := by
    intro empty
    exact filled (String.append_eq_empty_iff.mp empty).1
  unfold scoreComment
  split
  · next e t =>
    rw [ne_eq, Option.some.injEq]
    exact long _ _ (long _ _ (fun empty => nonempty (by rw [empty])))
  · exact nonempty
  · rw [ne_eq, Option.some.injEq]
    exact long _ _ (by decide)
  · simp

theorem scoreValue_eq_some {value : Option F64} {label errorType : Option String} {kind : DataType}
    {num : Option F64} {str : Option String}
    (scored : scoreValue value label errorType = some (kind, num, str)) :
    num = value ∧ kind = (if value.isSome then .numeric else .categorical) ∧
      str = label.or (if value.isNone ∧ errorType.isSome then some "error" else none) ∧
      (value = none → str.isSome) := by
  unfold scoreValue at scored
  split at scored
  · cases scored
    simp
  · cases scored
    simp
  · cases scored
    simp
  · cases scored

/-- The explanation of an event, cut and not empty. -/
def explanationOf (deps : Deps) (a : List KeyValue) : Option String :=
  ((attrStr deps a explanationKey).map (fun e => cap e maxExplanation)).filter (· ≠ "")

/-- Where each field of a score comes from. -/
theorem scoreFromEvent_eq_some
    (read : scoreFromEvent deps traceId spanId a idTime ts = some score) :
    capped deps a nameKey maxName = some score.name ∧
      scoreValue ((attrF64 deps a valueKey).filter F64.isFinite) (capped deps a labelKey maxLabel)
        (capped deps a errorTypeKey maxErrorType) =
          some (score.dataType, score.numValue, score.strValue) ∧
      (∃ span, scoreTarget traceId spanId = some (score.target, span)) ∧
      score.comment = scoreComment (explanationOf deps a)
        (capped deps a errorTypeKey maxErrorType) := by
  unfold scoreFromEvent at read
  cases named : capped deps a nameKey maxName with
  | none => simp [named] at read
  | some name =>
    simp only [named] at read
    split at read
    · next dataType numValue strValue target span scored parent =>
      cases read
      exact ⟨rfl, scored, ⟨span, parent⟩, rfl⟩
    · cases read

/-- A score from its parts. -/
theorem scoreFromEvent_of_parts {name span : String} {kind : DataType} {number : Option F64}
    {label : Option String} {target : ScoreTarget}
    (named : capped deps a nameKey maxName = some name)
    (scored : scoreValue ((attrF64 deps a valueKey).filter F64.isFinite)
      (capped deps a labelKey maxLabel) (capped deps a errorTypeKey maxErrorType) =
        some (kind, number, label))
    (parent : scoreTarget traceId spanId = some (target, span)) :
    scoreFromEvent deps traceId spanId a idTime ts = some
      { id := scoreId deps (hexEncode traceId) span name idTime
        target := target
        name := name
        numValue := number
        strValue := label
        dataType := kind
        source := .eval
        comment := scoreComment (explanationOf deps a) (capped deps a errorTypeKey maxErrorType)
        tsUnixNano := ts } := by
  unfold scoreFromEvent
  simp only [named, scored, parent]
  rfl

theorem written_of_event (read : scoreFromEvent deps traceId spanId a idTime ts = some score) :
    Written score := by
  obtain ⟨named, scored, -, commented⟩ := scoreFromEvent_eq_some read
  obtain ⟨number, kind, label, value⟩ := scoreValue_eq_some scored
  obtain ⟨s, -, isName⟩ := capped_eq_some.mp named
  refine ⟨⟨s, isName⟩, ?_, ?_, by rw [kind, number], by rw [number]; exact value, ?_⟩
  · intro v isNumber
    rw [number, Option.filter_eq_some_iff] at isNumber
    cases v with
    | finite q => exact ⟨q, rfl⟩
    | infinite negative => cases isNumber.2
    | nan => cases isNumber.2
  · intro l isLabel
    rw [label, Option.or_eq_some_iff] at isLabel
    obtain cut | ⟨-, failed⟩ := isLabel
    · obtain ⟨s, -, cut⟩ := capped_eq_some.mp cut
      exact ⟨s, cut⟩
    · split at failed
      · cases failed
        exact isCut_error
      · cases failed
  · rw [commented]
    refine scoreComment_ne_empty ?_
    intro empty
    have filled := (Option.filter_eq_some_iff.mp empty).2
    simp at filled

/-! ## What is read -/

theorem keys_differ : [nameKey, labelKey, valueKey, explanationKey, errorTypeKey].Nodup := by
  decide

/-- An attribute in front of others. -/
theorem attr_cons (key k : String) (v : Option AnyValue) (attrs : List KeyValue) :
    attr (.mk k v :: attrs) key = if k = key then v else attr attrs key := by
  unfold attr
  show (List.find? (fun kv => decide (kv.key = key)) (.mk k v :: attrs)).bind KeyValue.value = _
  by_cases same : k = key
  · have found : decide ((KeyValue.mk k v).key = key) = true := decide_eq_true same
    rw [if_pos same, List.find?_cons, found]
    rfl
  · have passed : decide ((KeyValue.mk k v).key = key) = false := decide_eq_false same
    rw [if_neg same, List.find?_cons, passed]

theorem attr_exportAttributes (score : Score) :
    let attributes := (exportAttributes score).map (fun (k, v) => KeyValue.mk k (attributeValue v))
    attr attributes nameKey = some (.string score.name) ∧
      attr attributes labelKey = score.strValue.map AnyValue.string ∧
      attr attributes valueKey = (score.numValue.map jsonOfF64).bind attributeValue ∧
      attr attributes explanationKey = score.comment.map AnyValue.string ∧
      attr attributes errorTypeKey = none := by
  have differ := keys_differ
  simp only [List.nodup_cons, List.mem_cons, not_or] at differ
  obtain ⟨⟨nl, nv, ne, nt, -⟩, ⟨lv, le, lt, -⟩, ⟨ve, vt, -⟩, ⟨et, -⟩, -⟩ := differ
  have empty (key : String) : attr [] key = none := rfl
  unfold exportAttributes
  cases score.comment <;> cases score.strValue <;> cases score.numValue <;>
    simp only [Option.map_none, Option.map_some, Option.toList_none, Option.toList_some,
      List.nil_append, List.cons_append, List.append_nil, List.map_cons, List.map_nil, attr_cons,
      empty, nl, nv, ne, nt, lv, le, lt, ve, vt, et, Ne.symm nl, Ne.symm nv, Ne.symm ne, Ne.symm lv,
      Ne.symm le, Ne.symm ve, if_true, if_false, attributeValue, Option.bind_some, Option.bind_none,
      and_self]

theorem eventAttributes_exportEvent {event : Json} (isEvent : exportEvent score = some event) :
    eventAttributes event =
      (exportAttributes score).map (fun (k, v) => KeyValue.mk k (attributeValue v)) := by
  unfold exportEvent at isEvent
  simp only at isEvent
  split at isEvent <;> cases isEvent <;> rfl

/-- What names a span or a trace has an operation to parent it to. -/
theorem exportEvent_of_target {span : String}
    (parent : scoreTarget traceId spanId = some (score.target, span)) :
    ∃ event, exportEvent score = some event := by
  unfold scoreTarget at parent
  unfold exportEvent
  split at parent
  · split at parent
    · cases parent
    · rw [← (Prod.mk.inj (Option.some.inj parent)).1]
      exact ⟨_, rfl⟩
  · rw [← (Prod.mk.inj (Option.some.inj parent)).1]
    exact ⟨_, rfl⟩

/-- A cut text is read trimmed. -/
theorem capped_of_isCut {attrs : List KeyValue} {key : String} {max : Nat} {text : Option String}
    (holds : attr attrs key = text.map AnyValue.string) (cut : ∀ t, text = some t → IsCut max t) :
    capped deps attrs key max = text.map trim := by
  unfold capped attrStr
  rw [holds]
  cases text with
  | none => rfl
  | some t =>
    obtain ⟨stable, nonempty⟩ := (cut t rfl).trim
    simp [scalarString, stable, nonempty]

/-- What is read from the line of a score: its texts trimmed again, its comment cut again. -/
theorem scoreFromEvent_exported {event : Json} {span : String} (written : Written score)
    (parent : scoreTarget traceId spanId = some (score.target, span))
    (isEvent : exportEvent score = some event) :
    ∃ again, scoreFromEvent deps traceId spanId (eventAttributes event) idTime ts = some again ∧
      again.name = trim score.name ∧ again.numValue = score.numValue ∧
      again.strValue = score.strValue.map trim ∧ again.dataType = score.dataType ∧
      again.comment = score.comment.map (fun c => cap c maxExplanation) := by
  rw [eventAttributes_exportEvent isEvent]
  obtain ⟨name, label, value, explanation, noError⟩ := attr_exportAttributes score
  -- only what each key holds matters from here on
  generalize (exportAttributes score).map (fun (k, v) => KeyValue.mk k (attributeValue v)) =
    attrs at name label value explanation noError ⊢
  have isName : capped deps attrs nameKey maxName = some (trim score.name) := by
    have cut : ∀ t, some score.name = some t → IsCut maxName t := by
      intro t same
      cases same
      exact written.name
    exact capped_of_isCut (by exact name) cut
  have isLabel : capped deps attrs labelKey maxLabel = score.strValue.map trim :=
    capped_of_isCut label written.label
  -- an exported line has no error type, the comment carries it
  have isError : capped deps attrs errorTypeKey maxErrorType = none := by
    unfold capped attrStr
    rw [noError]
    rfl
  -- a score that was read has a finite value, so the filter keeps it
  have isValue : (attrF64 deps attrs valueKey).filter F64.isFinite = score.numValue := by
    unfold attrF64
    rw [value]
    cases number : score.numValue with
    | none => rfl
    | some v =>
      obtain ⟨q, rfl⟩ := written.number v number
      rfl
  have isExplanation : explanationOf deps attrs =
      score.comment.map (fun c => cap c maxExplanation) := by
    unfold explanationOf attrStr
    rw [explanation]
    cases comment : score.comment with
    | none => rfl
    | some c =>
      -- a cut to a positive length leaves some of a text that is not empty
      have nonempty : cap c maxExplanation ≠ "" :=
        cap_ne_empty (fun empty => written.comment (by rw [comment, empty])) (by decide)
      simp [scalarString, nonempty]
  have isScored : scoreValue score.numValue (score.strValue.map trim) none =
      some (score.dataType, score.numValue, score.strValue.map trim) := by
    rw [written.kind]
    cases number : score.numValue with
    | some v => rfl
    | none =>
      obtain ⟨l, labelled⟩ := Option.isSome_iff_exists.mp (written.value number)
      rw [labelled]
      rfl
  rw [← isValue, ← isLabel, ← isError] at isScored
  refine ⟨_, scoreFromEvent_of_parts isName isScored parent, rfl, isValue, isLabel, rfl, ?_⟩
  show scoreComment (explanationOf deps attrs) _ = _
  rw [isExplanation, isError]
  cases score.comment <;> rfl

/-! ## When it is the same score -/

/-- The fields a line carries. -/
structure SameScore (again score : Score) : Prop where
  name : again.name = score.name
  numValue : again.numValue = score.numValue
  strValue : again.strValue = score.strValue
  dataType : again.dataType = score.dataType
  comment : again.comment = score.comment

/-- The trimmed text, cut, does not end in white space. -/
def CutsClean (text : String) (max : Nat) : Prop := trim (cap (trim text) max) = cap (trim text) max

/-- No cut leaves white space at an end, an error type fits behind its explanation, and the
number is one that its own text gives back. -/
structure Fits (deps : Deps) (number : ℚ → Option ℚ) (a : List KeyValue) : Prop where
  name : ∀ n, attrStr deps a nameKey = some n → CutsClean n maxName
  label : ∀ l, attrStr deps a labelKey = some l → CutsClean l maxLabel
  comment : ∀ e t, attrStr deps a explanationKey = some e → attrStr deps a errorTypeKey = some t →
    e ≠ "" → trim t ≠ "" →
      (utf8 (cap e maxExplanation)).length + (utf8 " | error.type=").length +
        (utf8 (cap (trim t) maxErrorType)).length ≤ maxExplanation
  number : ∀ q, attrF64 deps a valueKey = some (.finite q) → number q = some q

theorem name_stable_iff (named : capped deps a nameKey maxName = some score.name) :
    trim score.name = score.name ↔ ∀ n, attrStr deps a nameKey = some n → CutsClean n maxName := by
  obtain ⟨s, isText, isName, -⟩ := capped_eq_some.mp named
  rw [isName]
  simp [isText, CutsClean]

theorem label_stable_iff
    (scored : scoreValue ((attrF64 deps a valueKey).filter F64.isFinite)
      (capped deps a labelKey maxLabel) (capped deps a errorTypeKey maxErrorType) =
        some (score.dataType, score.numValue, score.strValue)) :
    score.strValue.map trim = score.strValue ↔
      ∀ l, attrStr deps a labelKey = some l → CutsClean l maxLabel := by
  obtain ⟨-, -, label, -⟩ := scoreValue_eq_some scored
  rw [label]
  have error : trim "error" = "error" := by decide
  cases isText : attrStr deps a labelKey with
  | none =>
    have unlabelled : capped deps a labelKey maxLabel = none := by simp [capped, isText]
    rw [unlabelled, Option.none_or]
    split <;> simp [error]
  | some l =>
    by_cases empty : cap (trim l) maxLabel = ""
    · have unlabelled : capped deps a labelKey maxLabel = none := by simp [capped, isText, empty]
      have blank : trim "" = "" := by decide
      rw [unlabelled, Option.none_or]
      split <;> simp [error, CutsClean, empty, blank]
    · have labelled : capped deps a labelKey maxLabel = some (cap (trim l) maxLabel) := by
        simp [capped, isText, empty]
      simp [labelled, CutsClean]

theorem explanationOf_eq_some {text : String} :
    explanationOf deps a = some text ↔
      ∃ e, attrStr deps a explanationKey = some e ∧ text = cap e maxExplanation ∧ e ≠ "" := by
  unfold explanationOf
  rw [Option.filter_eq_some_iff, Option.map_eq_some_iff, decide_eq_true_eq]
  constructor
  · rintro ⟨⟨e, isText, rfl⟩, nonempty⟩
    exact ⟨e, isText, rfl, fun empty => nonempty (by rw [empty]; rfl)⟩
  · rintro ⟨e, isText, rfl, nonempty⟩
    exact ⟨⟨e, isText, rfl⟩, cap_ne_empty nonempty (by decide)⟩

theorem length_cap_le (s : String) (max : Nat) : (utf8 (cap s max)).length ≤ max := by
  rw [length_utf8_eq, toList_cap]
  exact byteLength_capChars max s.toList

theorem cap_of_length {s : String} {max : Nat} (fits : (utf8 s).length ≤ max) : cap s max = s := by
  rw [cap_eq_self_iff, ← length_utf8_eq]
  exact fits

/-- An explanation and an error type that are both there are the comment together. -/
theorem comment_stable_of_both {e t : String} :
    cap (e ++ " | error.type=" ++ t) maxExplanation = e ++ " | error.type=" ++ t ↔
      (utf8 e).length + (utf8 " | error.type=").length + (utf8 t).length ≤ maxExplanation := by
  rw [cap_eq_self_iff, ← length_utf8_eq, utf8_append, utf8_append, List.length_append,
    List.length_append]

theorem comment_stable_iff
    (commented : score.comment = scoreComment (explanationOf deps a)
      (capped deps a errorTypeKey maxErrorType)) :
    score.comment.map (fun c => cap c maxExplanation) = score.comment ↔
      ∀ e t, attrStr deps a explanationKey = some e → attrStr deps a errorTypeKey = some t →
        e ≠ "" → trim t ≠ "" →
          (utf8 (cap e maxExplanation)).length + (utf8 " | error.type=").length +
            (utf8 (cap (trim t) maxErrorType)).length ≤ maxExplanation := by
  rw [commented]
  constructor
  -- both parts are there, so the comment is the two joined
  · intro stable e t isExplanation isError nonempty someError
    have explained : explanationOf deps a = some (cap e maxExplanation) :=
      explanationOf_eq_some.mpr ⟨e, isExplanation, rfl, nonempty⟩
    have failed : capped deps a errorTypeKey maxErrorType = some (cap (trim t) maxErrorType) :=
      capped_eq_some.mpr ⟨t, isError, rfl, cap_ne_empty someError (by decide)⟩
    rw [explained, failed] at stable
    exact comment_stable_of_both.mp (Option.some.inj stable)
  -- a part that stands alone is short enough for the second cut
  · intro fits
    cases explained : explanationOf deps a with
    | none =>
      cases failed : capped deps a errorTypeKey maxErrorType with
      | none => rfl
      | some t' =>
        obtain ⟨t, -, rfl, -⟩ := capped_eq_some.mp failed
        have short := length_cap_le (trim t) maxErrorType
        have front : (utf8 "error.type=").length = 11 := by decide
        have wide : maxErrorType + 11 ≤ maxExplanation := by decide
        refine congrArg some (cap_of_length ?_)
        rw [utf8_append, List.length_append]
        omega
    | some e' =>
      obtain ⟨e, isExplanation, rfl, nonempty⟩ := explanationOf_eq_some.mp explained
      cases failed : capped deps a errorTypeKey maxErrorType with
      | none => exact congrArg some (cap_of_length (length_cap_le e maxExplanation))
      | some t' =>
        obtain ⟨t, isError, rfl, someError⟩ := capped_eq_some.mp failed
        have filled : trim t ≠ "" := fun empty => someError (by rw [empty]; rfl)
        have short := fits e t isExplanation isError nonempty filled
        exact congrArg some (comment_stable_of_both.mpr short)

section Reread

variable {number : ℚ → Option ℚ} {told : Score}

/-- Nothing but the number is read otherwise. -/
theorem reread_eq_some (isTold : reread number score = some told) :
    told.target = score.target ∧ told.name = score.name ∧ told.strValue = score.strValue ∧
      told.dataType = score.dataType ∧ told.comment = score.comment ∧
      told.numValue.isSome = score.numValue.isSome := by
  unfold reread at isTold
  split at isTold
  · next q isNumber =>
    obtain ⟨r, -, rfl⟩ := Option.map_eq_some_iff.mp isTold
    simp [isNumber]
  · cases isTold
    simp

/-- What a number is read as is a number. -/
theorem Written.reread (written : Written score) (isTold : reread number score = some told) :
    Written told := by
  obtain ⟨-, name, label, kind, comment, numbered⟩ := reread_eq_some isTold
  refine ⟨by rw [name]; exact written.name, ?_, by rw [label]; exact written.label,
    by rw [kind, numbered]; exact written.kind, ?_, by rw [comment]; exact written.comment⟩
  · intro v isValue
    unfold EvalEvent.reread at isTold
    split at isTold
    · obtain ⟨r, -, rfl⟩ := Option.map_eq_some_iff.mp isTold
      exact ⟨r, (Option.some.inj isValue).symm⟩
    · cases isTold
      exact written.number v isValue
  · intro unnumbered
    rw [label]
    refine written.value ?_
    rw [unnumbered, Option.isSome_none] at numbered
    exact Option.isSome_eq_false_iff.mp numbered.symm |> Option.isNone_iff_eq_none.mp

theorem number_stable_iff
    (isNumber : score.numValue = (attrF64 deps a valueKey).filter F64.isFinite) :
    (reread number score).map Score.numValue = some score.numValue ↔
      ∀ q, attrF64 deps a valueKey = some (.finite q) → number q = some q := by
  have unread (absent : score.numValue = none) :
      (reread number score).map Score.numValue = some score.numValue := by
    simp [reread, absent]
  cases sent : attrF64 deps a valueKey with
  | none => simp [unread (by rw [isNumber, sent]; rfl)]
  | some v =>
    rw [sent] at isNumber
    cases v with
    | finite q =>
      have kept : score.numValue = some (.finite q) := isNumber
      simp [reread, kept]
    | infinite negative => simp [unread isNumber]
    | nan => simp [unread isNumber]

end Reread

/-- A line that does not parse has no score. -/
theorem scoreFromEvent_nil : scoreFromEvent deps traceId spanId [] idTime ts = none := rfl

/-- A score is read back as it was written exactly when its texts fit and its number comes back
from its own text. -/
theorem export_reads_back_iff {number : ℚ → Option ℚ}
    (read : scoreFromEvent deps traceId spanId a idTime ts = some score)
    (reads : ∀ event, exportEvent score = some event →
      deps.parseJson (deps.renderJson event) = (reread number score).bind exportEvent) :
    (∃ line again, exportLine deps score = some line ∧
      scoreFromEvent deps traceId spanId (lineAttributes deps line) idTime ts = some again ∧
      SameScore again score) ↔ Fits deps number a := by
  obtain ⟨named, scored, ⟨span, parent⟩, commented⟩ := scoreFromEvent_eq_some read
  obtain ⟨event, isEvent⟩ := exportEvent_of_target parent
  have isLine : exportLine deps score = some (deps.renderJson event) := by
    rw [exportLine, isEvent, Option.map_some]
  -- the fields of the score against the attributes it was made of
  have fits : ((reread number score).map Score.numValue = some score.numValue ∧
      trim score.name = score.name ∧ score.strValue.map trim = score.strValue ∧
      score.comment.map (fun c => cap c maxExplanation) = score.comment) ↔ Fits deps number a := by
    rw [number_stable_iff (scoreValue_eq_some scored).1, name_stable_iff named,
      label_stable_iff scored, comment_stable_iff commented]
    exact ⟨fun s => ⟨s.2.1, s.2.2.1, s.2.2.2, s.1⟩, fun s => ⟨s.number, s.name, s.label, s.comment⟩⟩
  rw [← fits]
  have parsed := reads event isEvent
  -- a number the parser refuses loses the whole line
  cases isTold : reread number score with
  | none =>
    have attributes : lineAttributes deps (deps.renderJson event) = [] := by
      rw [lineAttributes, parsed, isTold]
      rfl
    constructor
    · rintro ⟨line, again, isLine', isAgain, -⟩
      rw [isLine, Option.some.injEq] at isLine'
      rw [← isLine', attributes, scoreFromEvent_nil] at isAgain
      cases isAgain
    · rintro ⟨stable, -⟩
      cases stable
  | some told =>
    obtain ⟨target, toldName, toldLabel, toldKind, toldComment, -⟩ := reread_eq_some isTold
    rw [← target] at parent
    obtain ⟨toldEvent, isToldEvent⟩ := exportEvent_of_target parent
    obtain ⟨again, isAgain, name, numValue, strValue, dataType, comment⟩ : ∃ again,
        scoreFromEvent deps traceId spanId (eventAttributes toldEvent) idTime ts = some again ∧
          again.name = trim told.name ∧ again.numValue = told.numValue ∧
          again.strValue = told.strValue.map trim ∧ again.dataType = told.dataType ∧
          again.comment = told.comment.map (fun c => cap c maxExplanation) :=
      scoreFromEvent_exported ((written_of_event read).reread isTold) parent isToldEvent
    have attributes : lineAttributes deps (deps.renderJson event) = eventAttributes toldEvent := by
      rw [lineAttributes, parsed, isTold, Option.bind_some, isToldEvent]
      rfl
    have same : SameScore again score ↔ told.numValue = score.numValue ∧
        trim score.name = score.name ∧ score.strValue.map trim = score.strValue ∧
        score.comment.map (fun c => cap c maxExplanation) = score.comment := by
      rw [toldName] at name
      rw [toldLabel] at strValue
      rw [toldComment] at comment
      rw [← numValue, ← name, ← strValue, ← comment]
      constructor
      · intro kept
        exact ⟨kept.numValue, kept.name, kept.strValue, kept.comment⟩
      · rintro ⟨sameNumber, sameName, sameLabel, sameComment⟩
        exact ⟨sameName, sameNumber, sameLabel, dataType.trans toldKind, sameComment⟩
    -- the line gives one score, so the one that is read is `again`
    rw [Option.map_some, Option.some.injEq, ← same]
    constructor
    · rintro ⟨line, again', isLine', isAgain', kept⟩
      rw [isLine, Option.some.injEq] at isLine'
      rw [← isLine', attributes, isAgain, Option.some.injEq] at isAgain'
      rw [isAgain']
      exact kept
    · intro kept
      exact ⟨_, again, isLine, by rw [attributes]; exact isAgain, kept⟩

end Written

/-- Reads one text back, that of an event with no number but four. -/
def lineHost (event : Json) : Deps :=
  let render (value : Json) :=
    String.ofList (value.text (fun q => if q = 4 then "4.0".toList else []))
  { Deps.hashing with
    renderJson := render
    parseJson := fun text => if text = render event then some event else none }

theorem lineHost_reads (event : Json) :
    (lineHost event).parseJson ((lineHost event).renderJson event) = some event := by
  unfold lineHost
  exact if_pos rfl

/-- The line of a labelled score of the span `22`. -/
def labelledLine (name label : String) (comment number : List (String × Json)) : Json :=
  .obj [("attributes", .obj (comment ++ [(nameKey, .str name), (labelKey, .str label)] ++ number)),
    ("name", .str eventName), ("span_id", .str "22"), ("time_unix_nano", .int 5000)]

/-- A labelled score of the span `22`. -/
def labelledScore (deps : Deps) (name label : String) (comment : Option String)
    (number : Option F64) : Score :=
  { id := scoreId deps "11" "22" name 5000
    target := .span "22"
    name := name
    numValue := number
    strValue := some label
    dataType := if number.isSome then .numeric else .categorical
    source := .eval
    comment := comment
    tsUnixNano := 5000 }

theorem scoreFromEvent_labelled {deps : Deps} {a : List KeyValue} {name label : String}
    {comment : Option String} {number : Option F64}
    (named : capped deps a nameKey maxName = some name)
    (numbered : (attrF64 deps a valueKey).filter F64.isFinite = number)
    (labelled : capped deps a labelKey maxLabel = some label)
    (commented : scoreComment (explanationOf deps a) (capped deps a errorTypeKey maxErrorType) =
      comment) :
    scoreFromEvent deps [0x11] [0x22] a 5000 5000 =
      some (labelledScore deps name label comment number) := by
  have scored : scoreValue ((attrF64 deps a valueKey).filter F64.isFinite)
      (capped deps a labelKey maxLabel) (capped deps a errorTypeKey maxErrorType) =
        some (if number.isSome then .numeric else .categorical, number, some label) := by
    rw [numbered, labelled]
    cases number <;> rfl
  have parent : scoreTarget [0x11] [0x22] = some (.span "22", "22") := by decide
  have trace : hexEncode [0x11] = "11" := by decide
  rw [scoreFromEvent_of_parts named scored parent, commented, trace]
  rfl

def onTopic : List KeyValue :=
  [.mk nameKey (some (.string " Relevance ")), .mk valueKey (some (.double (.finite 4))),
    .mk labelKey (some (.string "relevant")),
    .mk explanationKey (some (.string "on topic")), .mk errorTypeKey (some (.string "timeout"))]

theorem export_reads_back_iff_onTopic :
    let deps := lineHost (labelledLine "Relevance" "relevant"
      [(explanationKey, .str "on topic | error.type=timeout")] [(valueKey, .float 4)])
    ∃ score line again, scoreFromEvent deps [0x11] [0x22] onTopic 5000 5000 = some score ∧
      exportLine deps score = some line ∧
      scoreFromEvent deps [0x11] [0x22] (lineAttributes deps line) 5000 5000 = some again ∧
      SameScore again score := by
  intro deps
  let comment := "on topic | error.type=timeout"
  let score := labelledScore deps "Relevance" "relevant" (some comment) (some (.finite 4))
  have read : scoreFromEvent deps [0x11] [0x22] onTopic 5000 5000 = some score :=
    scoreFromEvent_labelled (by decide) (by decide) (by decide)
      (by decide)
  -- the host knows one line, the one this score is written as
  have reads : ∀ event, exportEvent score = some event →
      deps.parseJson (deps.renderJson event) = (reread some score).bind exportEvent := by
    intro event isEvent
    have same : exportEvent score = some (labelledLine "Relevance" "relevant"
      [(explanationKey, .str comment)] [(valueKey, .float 4)]) := rfl
    have kept : reread some score = some score := rfl
    rw [kept, Option.bind_some, same]
    rw [same, Option.some.injEq] at isEvent
    rw [← isEvent]
    exact lineHost_reads _
  have fits : Fits deps some onTopic := by
    refine ⟨?_, ?_, ?_, fun _ _ => rfl⟩
    · intro n isName
      have same : attrStr deps onTopic nameKey = some " Relevance " := by decide
      rw [same, Option.some.injEq] at isName
      rw [← isName, CutsClean]
      decide
    · intro l isLabel
      have same : attrStr deps onTopic labelKey = some "relevant" := by decide
      rw [same, Option.some.injEq] at isLabel
      rw [← isLabel, CutsClean]
      decide
    · intro e t isExplanation isError _ _
      have explained : attrStr deps onTopic explanationKey = some "on topic" := by decide
      have failed : attrStr deps onTopic errorTypeKey = some "timeout" := by decide
      rw [explained, Option.some.injEq] at isExplanation
      rw [failed, Option.some.injEq] at isError
      rw [← isExplanation, ← isError]
      decide
  obtain ⟨line, again, isLine, isAgain, kept⟩ := (export_reads_back_iff read reads).mpr fits
  exact ⟨score, line, again, read, isLine, isAgain, kept⟩

/-- So many letters, and what follows them. -/
def lettersThen (k : Nat) (rest : List Char) : String :=
  String.ofList ('n' :: List.replicate k 'n' ++ rest)

theorem lettersThen_inj {k : Nat} {rest others : List Char}
    (same : lettersThen k rest = lettersThen k others) : rest = others :=
  List.append_cancel_left (String.ofList_injective same)

theorem cap_lettersThen (k : Nat) (rest : List Char) :
    cap (lettersThen k (' ' :: rest)) (k + 2) = lettersThen k [' '] := by
  have size : byteLength ('n' :: List.replicate k 'n' ++ [' ']) = k + 2 := by
    have letter : 'n'.utf8Size = 1 := rfl
    have space : ' '.utf8Size = 1 := rfl
    simp [byteLength, letter, space]
    omega
  have split : 'n' :: List.replicate k 'n' ++ ' ' :: rest =
      ('n' :: List.replicate k 'n' ++ [' ']) ++ rest := by simp
  have spent : capChars 0 rest = [] := by
    cases rest with
    | nil => rfl
    | cons c rest =>
      have wide := Char.utf8Size_pos c
      rw [capChars, if_neg (by omega)]
  rw [cap, lettersThen, String.toList_ofList, split, capChars_append (Nat.le_of_eq size), size,
    Nat.sub_self, spent, List.append_nil]
  rfl

theorem trim_lettersThen {k : Nat} {rest : List Char}
    (stop : ∀ c, rest.getLast? = some c → isWhitespace c = false) :
    trim (lettersThen k rest) = lettersThen k rest := by
  refine trim_of_trimmed ⟨?_, ?_⟩
  · intro c first
    rw [lettersThen, String.toList_ofList] at first
    cases first
    rfl
  · intro c last
    rw [lettersThen, String.toList_ofList, List.getLast?_append] at last
    cases behind : rest.getLast? with
    | some d =>
      rw [behind] at last
      cases last
      exact stop _ behind
    | none =>
      rw [behind, Option.none_or] at last
      have letter := List.mem_of_getLast? last
      rw [← List.replicate_succ] at letter
      rw [List.eq_of_mem_replicate letter]
      rfl

theorem trim_lettersThen_space (k : Nat) : trim (lettersThen k [' ']) = lettersThen k [] := by
  have front : ('n' :: List.replicate k 'n' ++ [' ']).dropWhile isWhitespace =
      'n' :: List.replicate k 'n' ++ [' '] := rfl
  have letters : ('n' :: List.replicate k 'n').reverse = 'n' :: List.replicate k 'n' := by
    rw [← List.replicate_succ, List.reverse_replicate]
  have back : ('n' :: List.replicate k 'n' ++ [' ']).reverse.dropWhile isWhitespace =
      'n' :: List.replicate k 'n' := by
    rw [List.reverse_append, letters]
    rfl
  rw [trim, lettersThen, String.toList_ofList, front, back, letters, lettersThen, List.append_nil]

theorem export_loses_space :
    let deps := lineHost (labelledLine (lettersThen 254 [' ']) "relevant" [] [])
    let attrs := [.mk nameKey (some (.string (lettersThen 254 [' ', 'x']))),
      .mk labelKey (some (.string "relevant"))]
    ∃ score line again, scoreFromEvent deps [0x11] [0x22] attrs 5000 5000 = some score ∧
      exportLine deps score = some line ∧
      scoreFromEvent deps [0x11] [0x22] (lineAttributes deps line) 5000 5000 = some again ∧
      ¬ SameScore again score := by
  intro deps attrs
  have filled (k : Nat) (rest : List Char) : lettersThen k rest ≠ "" := by
    intro empty
    cases String.ofList_injective (empty.trans String.ofList_nil.symm)
  -- a labelled event by its name, once cut
  have read (name cut : String) (isCut : cap (trim name) maxName = cut) (nonempty : cut ≠ "") :
      scoreFromEvent deps [0x11] [0x22]
        [.mk nameKey (some (.string name)), .mk labelKey (some (.string "relevant"))] 5000 5000 =
          some (labelledScore deps cut "relevant" none none) :=
    scoreFromEvent_labelled (capped_eq_some.mpr ⟨name, rfl, isCut.symm, nonempty⟩) rfl
      (capped_eq_some.mpr ⟨"relevant", rfl, by decide, by decide⟩) rfl
  have first := read (lettersThen 254 [' ', 'x']) (lettersThen 254 [' ']) (by
    rw [trim_lettersThen (fun c last => by cases last; rfl)]
    exact cap_lettersThen 254 ['x']) (filled _ _)
  have second := read (lettersThen 254 [' ']) (lettersThen 254 []) (by
    rw [← cap_lettersThen 254 ['x']]
    exact (cap_trim_cap _ _).trans (by
      rw [cap_lettersThen]
      exact trim_lettersThen_space 254)) (filled _ _)
  have isEvent : exportEvent (labelledScore deps (lettersThen 254 [' ']) "relevant" none none) =
      some (labelledLine (lettersThen 254 [' ']) "relevant" [] []) := rfl
  have attributes : lineAttributes deps
      (deps.renderJson (labelledLine (lettersThen 254 [' ']) "relevant" [] [])) =
        [.mk nameKey (some (.string (lettersThen 254 [' ']))),
          .mk labelKey (some (.string "relevant"))] := by
    rw [lineAttributes, lineHost_reads]
    rfl
  have isLine : exportLine deps (labelledScore deps (lettersThen 254 [' ']) "relevant" none none) =
      some (deps.renderJson (labelledLine (lettersThen 254 [' ']) "relevant" [] [])) := by
    rw [exportLine, isEvent, Option.map_some]
  rw [← attributes] at second
  refine ⟨_, _, _, first, isLine, second, ?_⟩
  intro kept
  cases lettersThen_inj kept.name

end Evald.EvalEvent
