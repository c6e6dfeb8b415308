import Evald.JsonDoor
import Evald.Lib.Text

/-! # Export requests in JSON

The JSON form of an export request, member by member.  An exporter may write the members of an
object in any order, leave out the ones that have their default, and write a time or the whole
number of an attribute as a number or as a string; a value that is not set is an empty object.
However a request is sent, it is rewritten to the plain form of what is left of it once the empty
values of its keys and of its arrays are gone (`TracesForm.repair`, `LogsForm.repair`); an empty
body stays (`LogsForm.bears`).
-/

namespace Evald.JsonDoor

open Evald.Lib Evald.Otlp

/-! ## What is left of a value -/

def isUnset : AnyValue → Bool
  | .unset => true
  | _ => false

mutual

/-- A value without the empty values of its keys and of its arrays. -/
def leftValue : AnyValue → AnyValue
  | .array values => .array (leftItems values)
  | .kvlist values => .kvlist (leftEntries values)
  | value => value

def leftItems : List AnyValue → List AnyValue
  | [] => []
  | value :: values =>
    if isUnset value then leftItems values else leftValue value :: leftItems values

def leftEntries : List KeyValue → List KeyValue
  | [] => []
  | .mk key value :: entries => .mk key (leftOption value) :: leftEntries entries

def leftOption : Option AnyValue → Option AnyValue
  | none => none
  | some value => if isUnset value then none else some (leftValue value)

end

/-- A key with what is left of its value. -/
def left (kv : KeyValue) : KeyValue := .mk kv.key (leftOption kv.value)

mutual

/-- Nothing inside a value is empty. -/
def isWhole : AnyValue → Bool
  | .array values => itemsWhole values
  | .kvlist values => entriesWhole values
  | _ => true

def itemsWhole : List AnyValue → Bool
  | [] => true
  | value :: values => !isUnset value && isWhole value && itemsWhole values

def entriesWhole : List KeyValue → Bool
  | [] => true
  | .mk _ value :: entries => optionWhole value && entriesWhole entries

def optionWhole : Option AnyValue → Bool
  | none => true
  | some value => !isUnset value && isWhole value

end

@[simp] theorem left_key (kv : KeyValue) : (left kv).key = kv.key := rfl

@[simp] theorem left_value (kv : KeyValue) : (left kv).value = leftOption kv.value := rfl

theorem leftEntries_eq_map (kvs : List KeyValue) : leftEntries kvs = kvs.map left := by
  induction kvs with
  | nil => rfl
  | cons kv kvs inductionHypothesis =>
    obtain ⟨key, value⟩ := kv
    rw [leftEntries, inductionHypothesis, List.map_cons]
    rfl

theorem isUnset_leftValue (value : AnyValue) : isUnset (leftValue value) = isUnset value := by
  cases value <;> rfl

mutual

/-- Nothing goes of a whole value. -/
theorem leftValue_of_whole {value : AnyValue} (whole : isWhole value = true) :
    leftValue value = value := by
  cases value with
  | array values =>
    rw [isWhole] at whole
    rw [leftValue, leftItems_of_whole whole]
  | kvlist values =>
    rw [isWhole] at whole
    rw [leftValue, leftEntries_of_whole whole]
  | _ => rfl

theorem leftItems_of_whole {values : List AnyValue} (whole : itemsWhole values = true) :
    leftItems values = values := by
  cases values with
  | nil => rfl
  | cons value values =>
    simp only [itemsWhole, Bool.and_eq_true, Bool.not_eq_true'] at whole
    rw [leftItems, leftValue_of_whole whole.1.2, leftItems_of_whole whole.2]
    simp [whole.1.1]

theorem leftEntries_of_whole {entries : List KeyValue} (whole : entriesWhole entries = true) :
    leftEntries entries = entries := by
  cases entries with
  | nil => rfl
  | cons kv entries =>
    obtain ⟨key, value⟩ := kv
    simp only [entriesWhole, Bool.and_eq_true] at whole
    rw [leftEntries, leftOption_of_whole whole.1, leftEntries_of_whole whole.2]

theorem leftOption_of_whole {value : Option AnyValue} (whole : optionWhole value = true) :
    leftOption value = value := by
  cases value with
  | none => rfl
  | some value =>
    simp only [optionWhole, Bool.and_eq_true, Bool.not_eq_true'] at whole
    rw [leftOption, leftValue_of_whole whole.2, whole.1]
    simp

end

/-! ## Values in JSON -/

variable (base64 : List UInt8 → String)

mutual

/-- A value as JSON has it. -/
def valueOf : AnyValue → Value
  | .unset => .unset
  | .string s => .leaf .string (.str s) rfl
  | .bool b => .leaf .bool (.bool b) rfl
  | .int n => .int n
  | .double (.finite q) => .leaf .double (.float q) rfl
  -- no number of JSON: its name
  | .double (.infinite negative) =>
    .leaf .double (.str (if negative then "-Infinity" else "Infinity")) rfl
  | .double .nan => .leaf .double (.str "NaN") rfl
  | .array values => .array (itemsOf values)
  | .kvlist values => .kvlist (entriesOf values)
  | .bytes b => .leaf .bytes (.str (base64 b)) rfl
  | .stringIndex n => .leaf .index (.int n) rfl

def itemsOf : List AnyValue → List Value
  | [] => []
  | value :: values => valueOf value :: itemsOf values

def entriesOf : List KeyValue → List (String × Value)
  | [] => []
  | .mk key value :: entries => (key, optionOf value) :: entriesOf entries

def optionOf : Option AnyValue → Value
  | none => .unset
  | some value => valueOf value

end

@[simp] theorem isUnset_valueOf (value : AnyValue) :
    (valueOf base64 value).isUnset = isUnset value := by
  cases value with
  | double x => cases x <;> rfl
  | _ => rfl

mutual

/-- The plain form leaves out what goes. -/
theorem plain_leftValue (value : AnyValue) :
    (valueOf base64 (leftValue value)).plain = (valueOf base64 value).plain := by
  cases value with
  | array values => rw [leftValue, valueOf, valueOf, Value.plain, Value.plain, plain_leftItems]
  | kvlist values => rw [leftValue, valueOf, valueOf, Value.plain, Value.plain, plain_leftEntries]
  | _ => rfl

theorem plain_leftItems (values : List AnyValue) :
    plainItems (itemsOf base64 (leftItems values)) = plainItems (itemsOf base64 values) := by
  cases values with
  | nil => rfl
  | cons value values =>
    have here := plain_leftValue value
    have later := plain_leftItems values
    rw [leftItems, itemsOf, plainItems, isUnset_valueOf]
    split_ifs with unset
    · exact later
    · rw [itemsOf, plainItems, isUnset_valueOf, isUnset_leftValue, if_neg unset, here, later]

theorem plain_leftEntries (entries : List KeyValue) :
    plainEntries (entriesOf base64 (leftEntries entries)) =
      plainEntries (entriesOf base64 entries) := by
  cases entries with
  | nil => rfl
  | cons kv entries =>
    obtain ⟨key, value⟩ := kv
    rw [leftEntries, entriesOf, entriesOf, plainEntries, plainEntries, plain_leftEntries entries]
    rw [plainEntry, plainEntry, (plain_leftOption value).1, (plain_leftOption value).2]

theorem plain_leftOption (value : Option AnyValue) :
    (optionOf base64 (leftOption value)).isUnset = (optionOf base64 value).isUnset ∧
      (optionOf base64 (leftOption value)).plain = (optionOf base64 value).plain := by
  cases value with
  | none => exact ⟨rfl, rfl⟩
  | some value =>
    have here := plain_leftValue value
    by_cases unset : isUnset value = true
    · cases value <;> first | exact ⟨rfl, rfl⟩ | cases unset
    · rw [leftOption, if_neg unset, optionOf, optionOf, isUnset_valueOf, isUnset_valueOf,
        isUnset_leftValue]
      exact ⟨rfl, here⟩

end

/-! ## Objects -/

/-- A member of an object: how it may be written, and when it may be left out. -/
structure MemberForm where
  name : FieldName
  written : Json → Prop
  mayBeAbsent : Prop

inductive Members : List MemberForm → List (String × Json) → Prop
  | nil : Members [] []
  | written {form : MemberForm} {forms : List MemberForm} {value : Json}
    {members : List (String × Json)} (here : form.written value)
    (later : Members forms members) :
    Members (form :: forms) ((form.name.name, value) :: members)
  | absent {form : MemberForm} {forms : List MemberForm} {members : List (String × Json)}
    (here : form.mayBeAbsent) (later : Members forms members) : Members (form :: forms) members

/-- An object with these members, in any order. -/
def ObjectForm (forms : List MemberForm) (text : Json) : Prop :=
  ∃ members listed, text = .obj listed ∧ Members forms members ∧ members.Perm listed

namespace MemberForm

/-- A time, as a number or as a string. -/
def time (name : FieldName) (n : Nat) : MemberForm where
  name := name
  written text := text = .int n ∨ text = .str (toString n)
  mayBeAbsent := n = 0

def number (name : FieldName) (n : ℤ) : MemberForm where
  name := name
  written text := text = .int n
  mayBeAbsent := n = 0

def string (name : FieldName) (s : String) : MemberForm where
  name := name
  written text := text = .str s
  mayBeAbsent := s = ""

/-- An id, in hex. -/
def id (name : FieldName) (bytes : List UInt8) : MemberForm where
  name := name
  written text := text = .str (hexEncode bytes)
  mayBeAbsent := bytes = []

def optional {α : Type} (name : FieldName) (Form : α → Json → Prop) (value : Option α) :
    MemberForm where
  name := name
  written text := ∃ a, value = some a ∧ Form a text
  mayBeAbsent := value = none

def list {α : Type} (name : FieldName) (Form : α → Json → Prop) (values : List α) :
    MemberForm where
  name := name
  written text := ∃ texts, text = .arr texts ∧ List.Forall₂ Form values texts
  mayBeAbsent := values = []

end MemberForm

/-! ## Requests -/

/-- How attributes and the body of a record are written. -/
structure Spelling where
  attributes : List KeyValue → Json → Prop
  body : AnyValue → Json → Prop

/-- As an exporter may send them. -/
def sent : Spelling where
  attributes kvs text := ∃ texts, text = .arr texts ∧ SpellsEntries (entriesOf base64 kvs) texts
  body value text := (valueOf base64 value).Spells text

/-- In their plain form. -/
def plainly : Spelling where
  attributes kvs text := text = .arr (plainEntries (entriesOf base64 kvs))
  body value text := text = (valueOf base64 value).plain

section Forms

variable (spelling : Spelling)

def attributesMember (kvs : List KeyValue) : MemberForm where
  name := ⟨"attributes", by decide⟩
  written := spelling.attributes kvs
  mayBeAbsent := kvs = []

def ResourceForm (resource : Resource) : Json → Prop :=
  ObjectForm [attributesMember spelling resource.attributes]

def ScopeForm (scope : Scope) : Json → Prop :=
  ObjectForm [.string ⟨"name", by decide⟩ scope.name, .string ⟨"version", by decide⟩ scope.version,
    attributesMember spelling scope.attributes]

def StatusForm (status : Status) : Json → Prop :=
  ObjectForm [.string ⟨"message", by decide⟩ status.message,
    .number ⟨"code", by decide⟩ status.code]

def EventForm (event : Event) : Json → Prop :=
  ObjectForm [.time ⟨"timeUnixNano", by decide⟩ event.timeUnixNano,
    .string ⟨"name", by decide⟩ event.name, attributesMember spelling event.attributes]

def LinkForm (link : Link) : Json → Prop :=
  ObjectForm [.id ⟨"traceId", by decide⟩ link.traceId, .id ⟨"spanId", by decide⟩ link.spanId,
    attributesMember spelling link.attributes]

def SpanForm (span : Span) : Json → Prop :=
  ObjectForm [.id ⟨"traceId", by decide⟩ span.traceId, .id ⟨"spanId", by decide⟩ span.spanId,
    .id ⟨"parentSpanId", by decide⟩ span.parentSpanId, .string ⟨"name", by decide⟩ span.name,
    .number ⟨"kind", by decide⟩ span.kind,
    .time ⟨"startTimeUnixNano", by decide⟩ span.startTimeUnixNano,
    .time ⟨"endTimeUnixNano", by decide⟩ span.endTimeUnixNano,
    attributesMember spelling span.attributes,
    .list ⟨"events", by decide⟩ (EventForm spelling) span.events,
    .list ⟨"links", by decide⟩ (LinkForm spelling) span.links,
    .optional ⟨"status", by decide⟩ StatusForm span.status]

def ScopeSpansForm (scopeSpans : ScopeSpans) : Json → Prop :=
  ObjectForm [.optional ⟨"scope", by decide⟩ (ScopeForm spelling) scopeSpans.scope,
    .list ⟨"spans", by decide⟩ (SpanForm spelling) scopeSpans.spans,
    .string ⟨"schemaUrl", by decide⟩ scopeSpans.schemaUrl]

def ResourceSpansForm (resourceSpans : ResourceSpans) : Json → Prop :=
  ObjectForm [.optional ⟨"resource", by decide⟩ (ResourceForm spelling) resourceSpans.resource,
    .list ⟨"scopeSpans", by decide⟩ (ScopeSpansForm spelling) resourceSpans.scopeSpans,
    .string ⟨"schemaUrl", by decide⟩ resourceSpans.schemaUrl]

def TracesForm (req : ExportTraceServiceRequest) : Json → Prop :=
  ObjectForm
    [.list ⟨"resourceSpans", by decide⟩ (ResourceSpansForm spelling) req.resourceSpans]

def RecordForm (rec : LogRecord) : Json → Prop :=
  ObjectForm [.time ⟨"timeUnixNano", by decide⟩ rec.timeUnixNano,
    .time ⟨"observedTimeUnixNano", by decide⟩ rec.observedTimeUnixNano,
    .number ⟨"severityNumber", by decide⟩ rec.severityNumber,
    .string ⟨"severityText", by decide⟩ rec.severityText,
    .optional ⟨"body", by decide⟩ spelling.body rec.body,
    attributesMember spelling rec.attributes,
    .number ⟨"droppedAttributesCount", by decide⟩ rec.droppedAttributesCount,
    .number ⟨"flags", by decide⟩ rec.flags, .id ⟨"traceId", by decide⟩ rec.traceId,
    .id ⟨"spanId", by decide⟩ rec.spanId, .string ⟨"eventName", by decide⟩ rec.eventName]

def ScopeLogsForm (scopeLogs : ScopeLogs) : Json → Prop :=
  ObjectForm [.optional ⟨"scope", by decide⟩ (ScopeForm spelling) scopeLogs.scope,
    .list ⟨"logRecords", by decide⟩ (RecordForm spelling) scopeLogs.logRecords,
    .string ⟨"schemaUrl", by decide⟩ scopeLogs.schemaUrl]

def ResourceLogsForm (resourceLogs : ResourceLogs) : Json → Prop :=
  ObjectForm [.optional ⟨"resource", by decide⟩ (ResourceForm spelling) resourceLogs.resource,
    .list ⟨"scopeLogs", by decide⟩ (ScopeLogsForm spelling) resourceLogs.scopeLogs,
    .string ⟨"schemaUrl", by decide⟩ resourceLogs.schemaUrl]

def LogsForm (req : ExportLogsServiceRequest) : Json → Prop :=
  ObjectForm [.list ⟨"resourceLogs", by decide⟩ (ResourceLogsForm spelling) req.resourceLogs]

end Forms

/-! ## What is left of a request -/

def leftAttributes (kvs : List KeyValue) : List KeyValue := kvs.map left

def leftResource (resource : Resource) : Resource :=
  { resource with attributes := leftAttributes resource.attributes }

def leftScope (scope : Scope) : Scope :=
  { scope with attributes := leftAttributes scope.attributes }

def leftEvent (event : Event) : Event :=
  { event with attributes := leftAttributes event.attributes }

def leftLink (link : Link) : Link := { link with attributes := leftAttributes link.attributes }

def leftSpan (span : Span) : Span :=
  { span with
    attributes := leftAttributes span.attributes
    events := span.events.map leftEvent
    links := span.links.map leftLink }

def leftScopeSpans (scopeSpans : ScopeSpans) : ScopeSpans :=
  { scopeSpans with
    scope := scopeSpans.scope.map leftScope
    spans := scopeSpans.spans.map leftSpan }

def leftResourceSpans (resourceSpans : ResourceSpans) : ResourceSpans :=
  { resourceSpans with
    resource := resourceSpans.resource.map leftResource
    scopeSpans := resourceSpans.scopeSpans.map leftScopeSpans }

def leftTraces (req : ExportTraceServiceRequest) : ExportTraceServiceRequest :=
  { req with resourceSpans := req.resourceSpans.map leftResourceSpans }

/-- A body stays, also an empty one. -/
def leftRecord (rec : LogRecord) : LogRecord :=
  { rec with
    attributes := leftAttributes rec.attributes
    body := rec.body.map (leftValue) }

def leftScopeLogs (scopeLogs : ScopeLogs) : ScopeLogs :=
  { scopeLogs with
    scope := scopeLogs.scope.map leftScope
    logRecords := scopeLogs.logRecords.map leftRecord }

def leftResourceLogs (resourceLogs : ResourceLogs) : ResourceLogs :=
  { resourceLogs with
    resource := resourceLogs.resource.map leftResource
    scopeLogs := resourceLogs.scopeLogs.map leftScopeLogs }

def leftLogs (req : ExportLogsServiceRequest) : ExportLogsServiceRequest :=
  { req with resourceLogs := req.resourceLogs.map leftResourceLogs }

/-! ## A request that was sent is rewritten to the plain form of what is left of it -/

/-- What has one form is rewritten to something with another, of what `f` leaves. -/
def Rewrites {α : Type} (Form Form' : α → Json → Prop) (f : α → α) : Prop :=
  ∀ a text, Form a text → Form' (f a) (repair text)

/-- What a member is rewritten to. -/
structure Becomes (form form' : MemberForm) : Prop where
  name : form.name = form'.name
  written : ∀ text, form.written text → form'.written (repair text)
  absent : form.mayBeAbsent → form'.mayBeAbsent

theorem Becomes.scalar {form : MemberForm}
    (scalar : ∀ text, form.written text → isScalar text = true) : Becomes form form where
  name := rfl
  written text written := by rwa [repair_scalar (scalar text written)]
  absent absent := absent

theorem Becomes.time (name : FieldName) (n : Nat) : Becomes (.time name n) (.time name n) :=
  .scalar (by rintro text (rfl | rfl) <;> rfl)

theorem Becomes.number (name : FieldName) (n : ℤ) : Becomes (.number name n) (.number name n) :=
  .scalar (by rintro text rfl; rfl)

theorem Becomes.string (name : FieldName) (s : String) :
    Becomes (.string name s) (.string name s) :=
  .scalar (by rintro text rfl; rfl)

theorem Becomes.id (name : FieldName) (bytes : List UInt8) :
    Becomes (.id name bytes) (.id name bytes) :=
  .scalar (by rintro text rfl; rfl)

theorem Becomes.optional {α : Type} (name : FieldName) {Form Form' : α → Json → Prop} {f : α → α}
    (each : Rewrites Form Form' f) (value : Option α) :
    Becomes (.optional name Form value) (.optional name Form' (value.map f)) where
  name := rfl
  written := by
    rintro text ⟨a, rfl, written⟩
    exact ⟨f a, rfl, each a text written⟩
  absent := by
    rintro rfl
    rfl

theorem Becomes.list {α : Type} (name : FieldName) {Form Form' : α → Json → Prop} {f : α → α}
    (each : Rewrites Form Form' f) (values : List α) :
    Becomes (.list name Form values) (.list name Form' (values.map f)) where
  name := rfl
  written := by
    rintro text ⟨texts, rfl, written⟩
    refine ⟨texts.map repair, repair_arr texts, ?_⟩
    rw [List.forall₂_map_left_iff, List.forall₂_map_right_iff]
    exact written.imp each
  absent := by
    rintro rfl
    rfl

theorem Becomes.attributes (kvs : List KeyValue) :
    Becomes (attributesMember (sent base64) kvs)
      (attributesMember (plainly base64) (leftAttributes kvs)) where
  name := rfl
  written := by
    rintro text ⟨texts, rfl, each⟩
    show repair (.arr texts) = _
    rw [repair_arr, each.repair, leftAttributes, ← leftEntries_eq_map, plain_leftEntries]
  absent := by
    rintro rfl
    rfl

theorem Members.repair {forms forms' : List MemberForm} (each : List.Forall₂ Becomes forms forms')
    {members : List (String × Json)} (written : Members forms members) :
    Members forms' (members.map repairMember) := by
  induction written generalizing forms' with
  | nil =>
    cases each
    exact .nil
  | written here later inductionHypothesis =>
    cases each with
    | cons becomes rest =>
      rw [List.map_cons, repairMember_field, becomes.name]
      exact .written (becomes.written _ here) (inductionHypothesis rest)
  | absent here later inductionHypothesis =>
    cases each with
    | cons becomes rest => exact .absent (becomes.absent here) (inductionHypothesis rest)

/-- No member has a name that the rewriting looks for. -/
theorem Members.plain {forms : List MemberForm} {members : List (String × Json)}
    (written : Members forms members) : ∀ member ∈ members, member.1 ∉ reserved := by
  induction written with
  | nil => simp
  | @written form _ _ _ _ _ inductionHypothesis =>
    exact List.forall_mem_cons.mpr ⟨form.name.plain, inductionHypothesis⟩
  | absent _ _ inductionHypothesis => exact inductionHypothesis

theorem ObjectForm.repair {forms forms' : List MemberForm}
    (each : List.Forall₂ Becomes forms forms') {text : Json} (object : ObjectForm forms text) :
    ObjectForm forms' (repair text) := by
  obtain ⟨members, listed, rfl, written, perm⟩ := object
  refine ⟨members.map repairMember, listed.map repairMember, ?_, written.repair each,
    perm.map repairMember⟩
  rw [repair_obj, List.filter_eq_self.mpr]
  intro member inside
  have plain := written.plain member (perm.mem_iff.mpr inside)
  have other : member.1 ≠ "value" := fun same => plain (by rw [same]; decide)
  simp [other]

section Repair

variable {base64}

theorem ResourceForm.repair :
    Rewrites (ResourceForm (sent base64)) (ResourceForm (plainly base64)) leftResource :=
  fun _ _ form => ObjectForm.repair (.cons (.attributes _ _) .nil) form

theorem ScopeForm.repair :
    Rewrites (ScopeForm (sent base64)) (ScopeForm (plainly base64)) leftScope :=
  fun _ _ form => ObjectForm.repair
    (.cons (.string _ _) <| .cons (.string _ _) <| .cons (.attributes _ _) .nil) form

theorem StatusForm.repair : Rewrites StatusForm StatusForm (fun status => status) :=
  fun _ _ form => ObjectForm.repair (.cons (.string _ _) <| .cons (.number _ _) .nil) form

theorem EventForm.repair :
    Rewrites (EventForm (sent base64)) (EventForm (plainly base64)) leftEvent :=
  fun _ _ form => ObjectForm.repair
    (.cons (.time _ _) <| .cons (.string _ _) <| .cons (.attributes _ _) .nil) form

theorem LinkForm.repair : Rewrites (LinkForm (sent base64)) (LinkForm (plainly base64)) leftLink :=
  fun _ _ form => ObjectForm.repair
    (.cons (.id _ _) <| .cons (.id _ _) <| .cons (.attributes _ _) .nil) form

theorem SpanForm.repair :
    Rewrites (SpanForm (sent base64)) (SpanForm (plainly base64)) leftSpan := by
  intro span text form
  have status := Becomes.optional ⟨"status", by decide⟩ StatusForm.repair span.status
  rw [Option.map_id'] at status
  exact ObjectForm.repair (.cons (.id _ _) <| .cons (.id _ _) <| .cons (.id _ _) <|
    .cons (.string _ _) <| .cons (.number _ _) <| .cons (.time _ _) <| .cons (.time _ _) <|
    .cons (.attributes _ _) <| .cons (.list _ EventForm.repair _) <|
    .cons (.list _ LinkForm.repair _) <| .cons status .nil) form

theorem ScopeSpansForm.repair :
    Rewrites (ScopeSpansForm (sent base64)) (ScopeSpansForm (plainly base64)) leftScopeSpans :=
  fun _ _ form => ObjectForm.repair (.cons (.optional _ ScopeForm.repair _) <|
    .cons (.list _ SpanForm.repair _) <| .cons (.string _ _) .nil) form

theorem ResourceSpansForm.repair :
    Rewrites (ResourceSpansForm (sent base64)) (ResourceSpansForm (plainly base64))
      leftResourceSpans :=
  fun _ _ form => ObjectForm.repair (.cons (.optional _ ResourceForm.repair _) <|
    .cons (.list _ ScopeSpansForm.repair _) <| .cons (.string _ _) .nil) form

/-- However a traces request is sent, it is rewritten to the plain form of what is left of it. -/
theorem TracesForm.repair :
    Rewrites (TracesForm (sent base64)) (TracesForm (plainly base64)) leftTraces :=
  fun _ _ form => ObjectForm.repair (.cons (.list _ ResourceSpansForm.repair _) .nil) form

theorem body_repair : Rewrites (sent base64).body (plainly base64).body (leftValue) :=
  fun value _ spells => spells.repair.trans (plain_leftValue base64 value).symm

theorem RecordForm.repair :
    Rewrites (RecordForm (sent base64)) (RecordForm (plainly base64)) leftRecord :=
  fun _ _ form => ObjectForm.repair (.cons (.time _ _) <| .cons (.time _ _) <|
    .cons (.number _ _) <| .cons (.string _ _) <| .cons (.optional _ body_repair _) <|
    .cons (.attributes _ _) <| .cons (.number _ _) <| .cons (.number _ _) <| .cons (.id _ _) <|
    .cons (.id _ _) <| .cons (.string _ _) .nil) form

theorem ScopeLogsForm.repair :
    Rewrites (ScopeLogsForm (sent base64)) (ScopeLogsForm (plainly base64)) leftScopeLogs :=
  fun _ _ form => ObjectForm.repair (.cons (.optional _ ScopeForm.repair _) <|
    .cons (.list _ RecordForm.repair _) <| .cons (.string _ _) .nil) form

theorem ResourceLogsForm.repair :
    Rewrites (ResourceLogsForm (sent base64)) (ResourceLogsForm (plainly base64))
      leftResourceLogs :=
  fun _ _ form => ObjectForm.repair (.cons (.optional _ ResourceForm.repair _) <|
    .cons (.list _ ScopeLogsForm.repair _) <| .cons (.string _ _) .nil) form

/-- However a logs request is sent, it is rewritten to the plain form of what is left of it. -/
theorem LogsForm.repair : Rewrites (LogsForm (sent base64)) (LogsForm (plainly base64)) leftLogs :=
  fun _ _ form => ObjectForm.repair (.cons (.list _ ResourceLogsForm.repair _) .nil) form

end Repair

/-! ## An empty value in a message -/

/-- An array with an empty object among its items. -/
def hasEmptyItem : Json → Bool
  | .obj members => members.any (fun member =>
      member.1 = "values" &&
        match member.2 with
        | .arr items => items.any isEmptyObject
        | _ => false)
  | _ => false

mutual

/-- Somewhere in a message an `AnyValue` is an empty object. -/
def bearsEmpty : Json → Bool
  | .obj members => membersBearEmpty members
  | .arr items => itemsBearEmpty items
  | _ => false

def itemsBearEmpty : List Json → Bool
  | [] => false
  | item :: items => bearsEmpty item || itemsBearEmpty items

def membersBearEmpty : List (String × Json) → Bool
  | [] => false
  | member :: members => memberBearsEmpty member || membersBearEmpty members

def memberBearsEmpty : String × Json → Bool
  | (key, value) =>
    ((key = "value" || key = "body") && isEmptyObject value) ||
      (key = "arrayValue" && hasEmptyItem value) || bearsEmpty value

end

theorem bearsEmpty_item {items : List Json} {item : Json} (listed : item ∈ items)
    (bears : bearsEmpty item = true) : bearsEmpty (.arr items) = true := by
  rw [bearsEmpty]
  induction items with
  | nil => cases listed
  | cons first items inductionHypothesis =>
    rw [itemsBearEmpty, Bool.or_eq_true]
    cases listed with
    | head => exact .inl bears
    | tail _ later => exact .inr (inductionHypothesis later)

theorem bearsEmpty_member {members : List (String × Json)} {member : String × Json}
    (listed : member ∈ members) (bears : memberBearsEmpty member = true) :
    bearsEmpty (.obj members) = true := by
  rw [bearsEmpty]
  induction members with
  | nil => cases listed
  | cons first members inductionHypothesis =>
    rw [membersBearEmpty, Bool.or_eq_true]
    cases listed with
    | head => exact .inl bears
    | tail _ later => exact .inr (inductionHypothesis later)

theorem memberBearsEmpty_of_value {value : Json} (bears : bearsEmpty value = true) (key : String) :
    memberBearsEmpty (key, value) = true := by
  rw [memberBearsEmpty, bears, Bool.or_true]

/-- A member that may not be left out is there. -/
theorem Members.mem {forms : List MemberForm} {members : List (String × Json)}
    (written : Members forms members) {form : MemberForm} (listed : form ∈ forms)
    (present : ¬form.mayBeAbsent) :
    ∃ value, (form.name.name, value) ∈ members ∧ form.written value := by
  induction written with
  | nil => cases listed
  | @written first forms value members here _ inductionHypothesis =>
    cases listed with
    | head => exact ⟨value, List.mem_cons_self, here⟩
    | tail _ later =>
      obtain ⟨value', inside, written⟩ := inductionHypothesis later
      exact ⟨value', List.mem_cons_of_mem _ inside, written⟩
  | absent here _ inductionHypothesis =>
    cases listed with
    | head => exact absurd here present
    | tail _ later => exact inductionHypothesis later

theorem ObjectForm.bears {forms : List MemberForm} {text : Json}
    (object : ObjectForm forms text) {form : MemberForm} (listed : form ∈ forms)
    (present : ¬form.mayBeAbsent)
    (bears : ∀ value, form.written value → memberBearsEmpty (form.name.name, value) = true) :
    bearsEmpty text = true := by
  obtain ⟨members, listed', rfl, written, perm⟩ := object
  obtain ⟨value, inside, isWritten⟩ := written.mem listed present
  exact bearsEmpty_member (perm.mem_iff.mp inside) (bears value isWritten)

/-- A list with an item that has an empty value has one. -/
theorem ObjectForm.bears_list {forms : List MemberForm} {text : Json}
    (object : ObjectForm forms text) {α : Type} {name : FieldName} {Form : α → Json → Prop}
    {values : List α} (listed : MemberForm.list name Form values ∈ forms) {a : α}
    (member : a ∈ values) (bears : ∀ text, Form a text → bearsEmpty text = true) :
    bearsEmpty text = true := by
  refine object.bears listed (List.ne_nil_of_mem member) (fun value written => ?_)
  obtain ⟨texts, rfl, each⟩ := written
  obtain ⟨i, inside, rfl⟩ := List.getElem_of_mem member
  have inTexts : i < texts.length := each.length_eq ▸ inside
  exact memberBearsEmpty_of_value
    (bearsEmpty_item (List.getElem_mem inTexts) (bears _ (each.get inside inTexts))) _

section Bodies

variable {base64} {text : Json}

theorem RecordForm.bears {rec : LogRecord} (form : RecordForm (plainly base64) rec text)
    (unset : rec.body = some .unset) : bearsEmpty text = true := by
  refine ObjectForm.bears form (.tail _ (.tail _ (.tail _ (.tail _ (.head _))))) ?_ ?_
  · rw [unset]
    exact Option.some_ne_none _
  · rintro value ⟨body, isBody, rfl⟩
    rw [unset, Option.some_inj] at isBody
    rw [← isBody]
    rfl

/-- Every record has a body with a value, or none. -/
def BodiesSet (req : ExportLogsServiceRequest) : Prop :=
  ∀ resourceLogs ∈ req.resourceLogs, ∀ scopeLogs ∈ resourceLogs.scopeLogs,
    ∀ rec ∈ scopeLogs.logRecords, rec.body ≠ some .unset

theorem LogsForm.bears {req : ExportLogsServiceRequest}
    (form : LogsForm (plainly base64) req text) (unset : ¬BodiesSet req) :
    bearsEmpty text = true := by
  simp only [BodiesSet, not_forall, not_not] at unset
  obtain ⟨resourceLogs, inRequest, scopeLogs, inResource, rec, inScope, unset⟩ := unset
  refine ObjectForm.bears_list form List.mem_cons_self inRequest (fun text form => ?_)
  refine ObjectForm.bears_list form (.tail _ (.head _)) inResource (fun text form => ?_)
  refine ObjectForm.bears_list form (.tail _ (.head _)) inScope (fun text form => ?_)
  exact RecordForm.bears form unset

end Bodies

/-! ## A plain form bears none -/

theorem itemsBearEmpty_eq_any (items : List Json) :
    itemsBearEmpty items = items.any bearsEmpty := by
  induction items with
  | nil => rfl
  | cons item items inductionHypothesis =>
    rw [itemsBearEmpty, inductionHypothesis, List.any_cons]

theorem membersBearEmpty_eq_any (members : List (String × Json)) :
    membersBearEmpty members = members.any memberBearsEmpty := by
  induction members with
  | nil => rfl
  | cons member members inductionHypothesis =>
    rw [membersBearEmpty, inductionHypothesis, List.any_cons]

theorem isEmptyObject_plain (value : Value) : isEmptyObject value.plain = value.isUnset := by
  cases value <;> rfl

theorem bearsEmpty_scalar {value : Json} (scalar : isScalar value = true) (key : String) :
    memberBearsEmpty (key, value) = false := by
  cases value with
  | arr items => cases scalar
  | obj members => cases scalar
  | _ => simp [memberBearsEmpty, isEmptyObject, hasEmptyItem, bearsEmpty]

mutual

theorem bearsEmpty_plain : ∀ value : Value, bearsEmpty value.plain = false
  | .unset => rfl
  | .leaf field value scalar => by
    rw [Value.plain, bearsEmpty, membersBearEmpty, bearsEmpty_scalar scalar]
    rfl
  | .int n => by simp [Value.plain, bearsEmpty, membersBearEmpty, memberBearsEmpty, isEmptyObject]
  | .array items => by
    obtain ⟨empty, bears⟩ := bearsEmpty_plainItems items
    simp [Value.plain, bearsEmpty, membersBearEmpty, memberBearsEmpty, hasEmptyItem,
      isEmptyObject, empty, bears]
  | .kvlist entries => by
    simp [Value.plain, bearsEmpty, membersBearEmpty, memberBearsEmpty, isEmptyObject,
      bearsEmpty_plainEntries entries]

theorem bearsEmpty_plainItems : ∀ items : List Value,
    (plainItems items).any isEmptyObject = false ∧ itemsBearEmpty (plainItems items) = false
  | [] => ⟨rfl, rfl⟩
  | item :: items => by
    obtain ⟨empty, bears⟩ := bearsEmpty_plainItems items
    rw [plainItems]
    split_ifs with unset
    · exact ⟨empty, bears⟩
    · simp [isEmptyObject_plain, unset, empty, itemsBearEmpty, bearsEmpty_plain item, bears]

theorem bearsEmpty_plainEntries : ∀ entries : List (String × Value),
    itemsBearEmpty (plainEntries entries) = false
  | [] => rfl
  | (key, value) :: entries => by
    rw [plainEntries, itemsBearEmpty, bearsEmpty_plainEntries entries, plainEntry]
    split_ifs with unset
    · simp [bearsEmpty, membersBearEmpty, memberBearsEmpty]
    · simp [bearsEmpty, membersBearEmpty, memberBearsEmpty, isEmptyObject_plain, unset,
        bearsEmpty_plain value]

end

/-- A member is written without an empty value. -/
def WrittenFull (form : MemberForm) : Prop :=
  ∀ value, form.written value → memberBearsEmpty (form.name.name, value) = false

/-- What has the form bears no empty value. -/
def FormFull {α : Type} (Form : α → Json → Prop) (a : α) : Prop :=
  ∀ text, Form a text → bearsEmpty text = false

theorem Members.full {forms : List MemberForm} {members : List (String × Json)}
    (written : Members forms members) (full : ∀ form ∈ forms, WrittenFull form) :
    members.any memberBearsEmpty = false := by
  induction written with
  | nil => rfl
  | written here _ inductionHypothesis =>
    rw [List.forall_mem_cons] at full
    rw [List.any_cons, full.1 _ here, inductionHypothesis full.2]
    rfl
  | absent _ _ inductionHypothesis =>
    rw [List.forall_mem_cons] at full
    exact inductionHypothesis full.2

theorem ObjectForm.full {forms : List MemberForm} {text : Json} (object : ObjectForm forms text)
    (full : forms.Forall WrittenFull) : bearsEmpty text = false := by
  obtain ⟨members, listed, rfl, written, perm⟩ := object
  rw [bearsEmpty, membersBearEmpty_eq_any, ← perm.any_eq]
  exact written.full (List.forall_iff_forall_mem.mp full)

theorem WrittenFull.time (name : FieldName) (n : Nat) : WrittenFull (.time name n) := by
  rintro value (rfl | rfl) <;> exact bearsEmpty_scalar rfl _

theorem WrittenFull.number (name : FieldName) (n : ℤ) : WrittenFull (.number name n) := by
  rintro value rfl
  exact bearsEmpty_scalar rfl _

theorem WrittenFull.string (name : FieldName) (s : String) : WrittenFull (.string name s) := by
  rintro value rfl
  exact bearsEmpty_scalar rfl _

theorem WrittenFull.id (name : FieldName) (bytes : List UInt8) : WrittenFull (.id name bytes) := by
  rintro value rfl
  exact bearsEmpty_scalar rfl _

/-- Under a name that no `AnyValue` has. -/
theorem memberBearsEmpty_other {key : String} (other : key ∉ ["value", "body", "arrayValue"])
    {value : Json} (bears : bearsEmpty value = false) : memberBearsEmpty (key, value) = false := by
  simp only [List.mem_cons, List.not_mem_nil, or_false, not_or] at other
  simp [memberBearsEmpty, other, bears]

theorem WrittenFull.optional {α : Type} {name : FieldName}
    (other : name.name ∉ ["value", "body", "arrayValue"]) {Form : α → Json → Prop}
    {value : Option α} (full : ∀ a ∈ value, FormFull Form a) :
    WrittenFull (.optional name Form value) := by
  rintro text ⟨a, isValue, written⟩
  exact memberBearsEmpty_other other (full a isValue text written)

theorem WrittenFull.list {α : Type} {name : FieldName}
    (other : name.name ∉ ["value", "body", "arrayValue"]) {Form : α → Json → Prop}
    {values : List α} (full : ∀ a ∈ values, FormFull Form a) :
    WrittenFull (.list name Form values) := by
  rintro text ⟨texts, rfl, each⟩
  refine memberBearsEmpty_other other ?_
  rw [bearsEmpty, itemsBearEmpty_eq_any, List.any_eq_false]
  intro text listed
  obtain ⟨i, inside, rfl⟩ := List.getElem_of_mem listed
  have inValues : i < values.length := each.length_eq ▸ inside
  exact Bool.eq_false_iff.mp (full _ (List.getElem_mem inValues) _ (each.get inValues inside))

section Full

variable {base64}

theorem WrittenFull.attributes (kvs : List KeyValue) :
    WrittenFull (attributesMember (plainly base64) kvs) := by
  rintro text rfl
  have other : "attributes" ∉ ["value", "body", "arrayValue"] := by decide
  exact memberBearsEmpty_other other (bearsEmpty_plainEntries _)

theorem WrittenFull.body {name : FieldName} (isBody : name.name = "body") {body : Option AnyValue}
    (set : body ≠ some .unset) : WrittenFull (.optional name (plainly base64).body body) := by
  rintro text ⟨value, rfl, rfl⟩
  have isSet : isUnset value = false := by
    cases value with
    | unset => exact absurd rfl set
    | _ => rfl
  show memberBearsEmpty (name.name, _) = false
  simp [isBody, memberBearsEmpty, isEmptyObject_plain, isSet, bearsEmpty_plain]

theorem ResourceForm.full (resource : Resource) :
    FormFull (ResourceForm (plainly base64)) resource :=
  fun _ form => ObjectForm.full form (WrittenFull.attributes _)

theorem ScopeForm.full (scope : Scope) : FormFull (ScopeForm (plainly base64)) scope :=
  fun _ form => ObjectForm.full form ⟨.string _ _, .string _ _, .attributes _⟩

theorem StatusForm.full (status : Status) : FormFull StatusForm status :=
  fun _ form => ObjectForm.full form ⟨.string _ _, .number _ _⟩

theorem EventForm.full (event : Event) : FormFull (EventForm (plainly base64)) event :=
  fun _ form => ObjectForm.full form ⟨.time _ _, .string _ _, .attributes _⟩

theorem LinkForm.full (link : Link) : FormFull (LinkForm (plainly base64)) link :=
  fun _ form => ObjectForm.full form ⟨.id _ _, .id _ _, .attributes _⟩

theorem SpanForm.full (span : Span) : FormFull (SpanForm (plainly base64)) span :=
  fun _ form => ObjectForm.full form ⟨.id _ _, .id _ _, .id _ _, .string _ _, .number _ _,
    .time _ _, .time _ _, .attributes _, .list (by decide) (fun event _ => EventForm.full event),
    .list (by decide) (fun link _ => LinkForm.full link),
    .optional (by decide) (fun status _ => StatusForm.full status)⟩

theorem ScopeSpansForm.full (scopeSpans : ScopeSpans) :
    FormFull (ScopeSpansForm (plainly base64)) scopeSpans :=
  fun _ form => ObjectForm.full form
    ⟨.optional (by decide) (fun scope _ => ScopeForm.full scope),
      .list (by decide) (fun span _ => SpanForm.full span), .string _ _⟩

theorem ResourceSpansForm.full (resourceSpans : ResourceSpans) :
    FormFull (ResourceSpansForm (plainly base64)) resourceSpans :=
  fun _ form => ObjectForm.full form
    ⟨.optional (by decide) (fun resource _ => ResourceForm.full resource),
      .list (by decide) (fun scopeSpans _ => ScopeSpansForm.full scopeSpans), .string _ _⟩

/-- The plain form of a traces request has no empty value. -/
theorem TracesForm.full (req : ExportTraceServiceRequest) :
    FormFull (TracesForm (plainly base64)) req :=
  fun _ form => ObjectForm.full form
    (WrittenFull.list (by decide)
      (fun resourceSpans _ => ResourceSpansForm.full resourceSpans))

theorem RecordForm.full {rec : LogRecord} (set : rec.body ≠ some .unset) :
    FormFull (RecordForm (plainly base64)) rec :=
  fun _ form => ObjectForm.full form ⟨.time _ _, .time _ _, .number _ _, .string _ _,
    .body rfl set, .attributes _, .number _ _, .number _ _, .id _ _, .id _ _, .string _ _⟩

theorem ScopeLogsForm.full {scopeLogs : ScopeLogs}
    (set : ∀ rec ∈ scopeLogs.logRecords, rec.body ≠ some .unset) :
    FormFull (ScopeLogsForm (plainly base64)) scopeLogs :=
  fun _ form => ObjectForm.full form
    ⟨.optional (by decide) (fun scope _ => ScopeForm.full scope),
      .list (by decide) (fun rec listed => RecordForm.full (set rec listed)), .string _ _⟩

theorem ResourceLogsForm.full {resourceLogs : ResourceLogs}
    (set : ∀ scopeLogs ∈ resourceLogs.scopeLogs, ∀ rec ∈ scopeLogs.logRecords,
      rec.body ≠ some .unset) :
    FormFull (ResourceLogsForm (plainly base64)) resourceLogs :=
  fun _ form => ObjectForm.full form
    ⟨.optional (by decide) (fun resource _ => ResourceForm.full resource),
      .list (by decide) (fun scopeLogs listed => ScopeLogsForm.full (set scopeLogs listed)),
      .string _ _⟩

/-- The plain form of a logs request has none where every body is set. -/
theorem LogsForm.full {req : ExportLogsServiceRequest} (set : BodiesSet req) :
    FormFull (LogsForm (plainly base64)) req :=
  fun _ form => ObjectForm.full form
    (WrittenFull.list (by decide)
      (fun resourceLogs listed => ResourceLogsForm.full (set resourceLogs listed)))

end Full

end Evald.JsonDoor
