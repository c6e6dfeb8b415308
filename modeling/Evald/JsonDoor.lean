import Evald.JsonText
import Evald.Otlp

/-! # The JSON door

A request in JSON is rewritten before it is read: an attribute's whole number that is spelled as
a string becomes a number, and values with nothing in them go away.  Every spelling of a request is
rewritten to its one plain form (`Doc.Spells.repair`).
-/

namespace Evald.JsonDoor

/-! ## The rewriting -/

/-- `s.parse::<i64>()` -/
def parseI64 (s : String) : Option ℤ :=
  let (negative, digits) :=
    match s.toList with
    | '-' :: rest => (true, rest)
    | '+' :: rest => (false, rest)
    | rest => (false, rest)
  let n : ℤ := Nat.ofDigitChars 10 digits 0
  let n := if negative then -n else n
  if digits ≠ [] ∧ digits.all Char.isDigit ∧ -2 ^ 63 ≤ n ∧ n < 2 ^ 63 then some n else none

def isIntKey (key : String) : Bool := key = "intValue" || key = "asInt"

mutual

/-- Numbers for the strings that spell them. -/
def coerceInts : Json → Json
  | .obj members => .obj (coerceMembers members)
  | .arr items => .arr (coerceItems items)
  | other => other

def coerceItems : List Json → List Json
  | [] => []
  | item :: items => coerceInts item :: coerceItems items

def coerceMembers : List (String × Json) → List (String × Json)
  | [] => []
  | member :: members => coerceMember member :: coerceMembers members

def coerceMember : String × Json → String × Json
  | (key, .str s) =>
      (key, if isIntKey key then ((parseI64 s).map Json.int).getD (.str s) else .str s)
  | (key, value) => (key, coerceInts value)

end

/-- An object with no members. -/
def isEmptyObject : Json → Bool
  | .obj [] => true
  | _ => false

/-- A key whose value is empty. -/
def hasEmptyValue (members : List (String × Json)) : Bool :=
  members.any (fun m => m.1 = "key") &&
    members.any (fun m => m.1 = "value" && isEmptyObject m.2)

mutual

/-- No value for an empty one. -/
def dropEmpty : Json → Json
  | .obj members => .obj (dropMembers (hasEmptyValue members) members)
  | .arr items => .arr (dropItems false items)
  | other => other

/-- The items, those that are empty objects left out where `values` says so. -/
def dropItems (values : Bool) : List Json → List Json
  | [] => []
  | item :: items =>
    if values && isEmptyObject item then dropItems values items
    else dropEmpty item :: dropItems values items

/-- The members, the value left out where it is empty. -/
def dropMembers (empty : Bool) : List (String × Json) → List (String × Json)
  | [] => []
  | member :: members =>
    if empty && member.1 = "value" then dropMembers empty members
    else dropMember member :: dropMembers empty members

def dropMember : String × Json → String × Json
  | (key, .arr items) => (key, .arr (dropItems (key = "values") items))
  | (key, value) => (key, dropEmpty value)

end

/-- What is done to a body before it is read. -/
def repair (body : Json) : Json := dropEmpty (coerceInts body)

/-! ## The rewriting, list by list -/

theorem coerceItems_eq_map (items : List Json) : coerceItems items = items.map coerceInts := by
  induction items with
  | nil => rfl
  | cons item items inductionHypothesis => rw [coerceItems, inductionHypothesis, List.map_cons]

theorem coerceMembers_eq_map (members : List (String × Json)) :
    coerceMembers members = members.map coerceMember := by
  induction members with
  | nil => rfl
  | cons member members inductionHypothesis =>
    rw [coerceMembers, inductionHypothesis, List.map_cons]

theorem dropItems_eq_map (values : Bool) (items : List Json) :
    dropItems values items =
      (items.filter (fun item => !(values && isEmptyObject item))).map dropEmpty := by
  induction items with
  | nil => rfl
  | cons item items inductionHypothesis =>
    rw [dropItems, inductionHypothesis, List.filter_cons]
    cases values && isEmptyObject item <;> simp

theorem dropMembers_eq_map (empty : Bool) (members : List (String × Json)) :
    dropMembers empty members =
      (members.filter (fun m => !(empty && m.1 = "value"))).map dropMember := by
  induction members with
  | nil => rfl
  | cons member members inductionHypothesis =>
    rw [dropMembers, inductionHypothesis, List.filter_cons]
    cases empty && member.1 = "value" <;> simp

theorem isEmptyObject_coerceInts (value : Json) :
    isEmptyObject (coerceInts value) = isEmptyObject value := by
  cases value with
  | obj members => cases members <;> rfl
  | _ => rfl

/-- What is done to a member. -/
def repairMember (member : String × Json) : String × Json := dropMember (coerceMember member)

theorem repair_arr (items : List Json) : repair (.arr items) = .arr (items.map repair) := by
  rw [repair, coerceInts, dropEmpty, coerceItems_eq_map, dropItems_eq_map]
  simp [repair, Function.comp_def]

/-- Under `values` the empty items go. -/
theorem repairMember_arr (key : String) (items : List Json) : repairMember (key, .arr items) =
    (key, .arr ((items.filter (fun item => !(key = "values" && isEmptyObject item))).map
      repair)) := by
  simp only [repairMember, coerceMember, coerceInts, dropMember, coerceItems_eq_map,
    dropItems_eq_map, List.filter_map, List.map_map]
  simp [Function.comp_def, isEmptyObject_coerceInts, repair]

/-! ## Requests and their spellings -/

/-- A leaf of a request. -/
def isScalar : Json → Bool
  | .arr _ | .obj _ => false
  | _ => true

theorem repair_scalar {value : Json} (scalar : isScalar value = true) : repair value = value := by
  cases value <;> first | rfl | cases scalar

inductive LeafField where
  | string
  | bool
  | double
  | bytes
  | index

def LeafField.name : LeafField → String
  | .string => "stringValue"
  | .bool => "boolValue"
  | .double => "doubleValue"
  | .bytes => "bytesValue"
  | .index => "stringValueStrindex"

/-- A value of an attribute. -/
inductive Value where
  | unset
  | leaf (field : LeafField) (value : Json) (scalar : isScalar value = true)
  | int (n : ℤ)
  | array (items : List Value)
  | kvlist (entries : List (String × Value))

def Value.isUnset : Value → Bool
  | .unset => true
  | _ => false

/-- The names that the rewriting looks for. -/
def reserved : List String := ["intValue", "asInt", "values", "value"]

structure FieldName where
  name : String
  plain : name ∉ reserved

/-- A message of a request, whatever its fields. -/
inductive Doc where
  | scalar (value : Json) (scalar : isScalar value = true)
  | value (value : Value) (isSet : value.isUnset = false)
  | attributes (entries : List (String × Value))
  | list (items : List Doc)
  | message (fields : List (FieldName × Doc))

mutual

/-- The plain form, which the reader takes. -/
def Value.plain : Value → Json
  | .unset => .obj []
  | .leaf field value _ => .obj [(field.name, value)]
  | .int n => .obj [("intValue", .int n)]
  | .array items => .obj [("arrayValue", .obj [("values", .arr (plainItems items))])]
  | .kvlist entries => .obj [("kvlistValue", .obj [("values", .arr (plainEntries entries))])]

def plainItems : List Value → List Json
  | [] => []
  | item :: items => if item.isUnset then plainItems items else item.plain :: plainItems items

def plainEntries : List (String × Value) → List Json
  | [] => []
  | entry :: entries => plainEntry entry :: plainEntries entries

def plainEntry : String × Value → Json
  | (key, value) =>
    if value.isUnset then .obj [("key", .str key)]
    else .obj [("key", .str key), ("value", value.plain)]

end

mutual

def Doc.plain : Doc → Json
  | .scalar value _ => value
  | .value value _ => value.plain
  | .attributes entries => .arr (plainEntries entries)
  | .list items => .arr (plainDocs items)
  | .message fields => .obj (plainFields fields)

def plainDocs : List Doc → List Json
  | [] => []
  | item :: items => item.plain :: plainDocs items

def plainFields : List (FieldName × Doc) → List (String × Json)
  | [] => []
  | field :: fields => plainField field :: plainFields fields

def plainField : FieldName × Doc → String × Json
  | (name, value) => (name.name, value.plain)

end

mutual

/-- How an exporter may spell a value: a whole number as a string or as a number, and nothing
as an empty object. -/
inductive Value.Spells : Value → Json → Prop
  | unset : Value.Spells .unset (.obj [])
  | leaf {field : LeafField} {value : Json} (scalar : isScalar value = true) :
    Value.Spells (.leaf field value scalar) (.obj [(field.name, value)])
  | int (n : ℤ) : Value.Spells (.int n) (.obj [("intValue", .int n)])
  | text {n : ℤ} {s : String} (parsed : parseI64 s = some n) :
    Value.Spells (.int n) (.obj [("intValue", .str s)])
  | array {items : List Value} {texts : List Json} (each : SpellsItems items texts) :
    Value.Spells (.array items) (.obj [("arrayValue", .obj [("values", .arr texts)])])
  | kvlist {entries : List (String × Value)} {texts : List Json}
    (each : SpellsEntries entries texts) :
    Value.Spells (.kvlist entries) (.obj [("kvlistValue", .obj [("values", .arr texts)])])

inductive SpellsItems : List Value → List Json → Prop
  | nil : SpellsItems [] []
  | cons {item : Value} {items : List Value} {text : Json} {texts : List Json}
    (here : item.Spells text) (later : SpellsItems items texts) :
    SpellsItems (item :: items) (text :: texts)

inductive SpellsEntries : List (String × Value) → List Json → Prop
  | nil : SpellsEntries [] []
  | cons {key : String} {value : Value} {entries : List (String × Value)} {text : Json}
    {texts : List Json} (here : value.Spells text) (later : SpellsEntries entries texts) :
    SpellsEntries ((key, value) :: entries)
      (.obj [("key", .str key), ("value", text)] :: texts)
  /-- A key alone. -/
  | key {key : String} {entries : List (String × Value)} {texts : List Json}
    (later : SpellsEntries entries texts) :
    SpellsEntries ((key, .unset) :: entries) (.obj [("key", .str key)] :: texts)

end

mutual

inductive Doc.Spells : Doc → Json → Prop
  | scalar {value : Json} (scalar : isScalar value = true) : Doc.Spells (.scalar value scalar) value
  | value {value : Value} {text : Json} {isSet : value.isUnset = false}
      (spells : value.Spells text) :
    Doc.Spells (.value value isSet) text
  | attributes {entries : List (String × Value)} {texts : List Json}
    (each : SpellsEntries entries texts) : Doc.Spells (.attributes entries) (.arr texts)
  | list {items : List Doc} {texts : List Json} (each : SpellsDocs items texts) :
    Doc.Spells (.list items) (.arr texts)
  | message {fields : List (FieldName × Doc)} {members : List (String × Json)}
    (each : SpellsFields fields members) : Doc.Spells (.message fields) (.obj members)

inductive SpellsDocs : List Doc → List Json → Prop
  | nil : SpellsDocs [] []
  | cons {item : Doc} {items : List Doc} {text : Json} {texts : List Json}
    (here : item.Spells text) (later : SpellsDocs items texts) :
    SpellsDocs (item :: items) (text :: texts)

inductive SpellsFields : List (FieldName × Doc) → List (String × Json) → Prop
  | nil : SpellsFields [] []
  | cons {name : FieldName} {value : Doc} {fields : List (FieldName × Doc)} {text : Json}
    {members : List (String × Json)} (here : value.Spells text)
    (later : SpellsFields fields members) :
    SpellsFields ((name, value) :: fields) ((name.name, text) :: members)

end

/-! ## Every spelling becomes the plain form -/

@[simp] theorem coerceMember_fst (member : String × Json) : (coerceMember member).1 = member.1 := by
  obtain ⟨key, value⟩ := member
  cases value <;> rfl

@[simp] theorem isEmptyObject_coerceMember (member : String × Json) :
    isEmptyObject (coerceMember member).2 = isEmptyObject member.2 := by
  obtain ⟨key, value⟩ := member
  cases value with
  | str s =>
    simp only [coerceMember]
    split_ifs
    · cases parseI64 s <;> rfl
    · rfl
  | _ => exact isEmptyObject_coerceInts _

/-- An object keeps its members, but for an empty value beside a key. -/
theorem repair_obj (members : List (String × Json)) : repair (.obj members) =
    .obj ((members.filter (fun m => !(hasEmptyValue members && m.1 = "value"))).map
      repairMember) := by
  have same : hasEmptyValue (members.map coerceMember) = hasEmptyValue members := by
    simp [hasEmptyValue, List.any_map, Function.comp_def]
  rw [repair, coerceInts, dropEmpty, coerceMembers_eq_map, dropMembers_eq_map, same,
    List.filter_map, List.map_map]
  simp [Function.comp_def, repairMember]

theorem repairMember_obj (key : String) (members : List (String × Json)) :
    repairMember (key, .obj members) = (key, repair (.obj members)) := rfl

theorem repair_single {key : String} (other : key ≠ "key") (value : Json) :
    repair (.obj [(key, value)]) = .obj [repairMember (key, value)] := by
  simp [repair_obj, hasEmptyValue, other]

/-- Only the names of whole numbers have their strings read. -/
theorem repairMember_scalar {key : String} {value : Json} (scalar : isScalar value = true)
    (noInt : isIntKey key = false) : repairMember (key, value) = (key, value) := by
  cases value with
  | arr items => cases scalar
  | obj members => cases scalar
  | str s => simp [repairMember, coerceMember, noInt, dropMember, dropEmpty]
  | _ => rfl

theorem repairMember_key (key : String) :
    repairMember ("key", .str key) = ("key", .str key) := repairMember_scalar rfl rfl

theorem Value.Spells.isEmptyObject {value : Value} {text : Json} (spells : value.Spells text) :
    isEmptyObject text = value.isUnset := by
  cases spells <;> rfl

theorem repairMember_value {value : Value} {text : Json} (spells : value.Spells text)
    (key : String) : repairMember (key, text) = (key, repair text) := by
  cases spells <;> rfl

/-- No entry of a list of keys is empty. -/
theorem SpellsEntries.filter {entries : List (String × Value)} {texts : List Json}
    (each : SpellsEntries entries texts) :
    texts.filter (fun text => !JsonDoor.isEmptyObject text) = texts := by
  rw [List.filter_eq_self]
  induction texts generalizing entries with
  | nil => simp
  | cons text texts inductionHypothesis =>
    rw [List.forall_mem_cons]
    cases each with
    | cons here later => exact ⟨rfl, inductionHypothesis later⟩
    | key later => exact ⟨rfl, inductionHypothesis later⟩

mutual

theorem Value.Spells.repair {value : Value} {text : Json} (spells : value.Spells text) :
    repair text = value.plain := by
  cases spells with
  | unset => rfl
  | @leaf field value scalar =>
    have noInt : isIntKey field.name = false := by cases field <;> rfl
    have other : field.name ≠ "key" := by cases field <;> decide
    rw [repair_single other, repairMember_scalar scalar noInt, Value.plain]
  | int n => rfl
  | text parsed =>
    rw [repair_single (by decide), Value.plain]
    simp [repairMember, coerceMember, isIntKey, parsed, dropMember, dropEmpty]
  | array each =>
    rw [repair_single (by decide), repairMember_obj, repair_single (by decide),
      repairMember_arr, Value.plain, ← each.repair]
    simp
  | kvlist each =>
    rw [repair_single (by decide), repairMember_obj, repair_single (by decide),
      repairMember_arr, Value.plain, ← each.repair]
    simp [each.filter]

theorem SpellsItems.repair {items : List Value} {texts : List Json}
    (each : SpellsItems items texts) :
    (texts.filter (fun text => !JsonDoor.isEmptyObject text)).map JsonDoor.repair =
      plainItems items := by
  cases each with
  | nil => rfl
  | cons here later =>
    have first := here.repair
    have rest := later.repair
    rw [List.filter_cons, here.isEmptyObject, plainItems]
    split_ifs <;> simp_all

theorem SpellsEntries.repair {entries : List (String × Value)} {texts : List Json}
    (each : SpellsEntries entries texts) : texts.map JsonDoor.repair = plainEntries entries := by
  cases each with
  | nil => rfl
  | cons here later =>
    rw [List.map_cons, later.repair, plainEntries, plainEntry, repair_obj]
    have first := here.repair
    have empty := here.isEmptyObject
    have member := repairMember_value here "value"
    split_ifs with isUnset
    · -- the value goes, and the key stays
      simp [hasEmptyValue, empty, isUnset, repairMember_key]
    · simp [hasEmptyValue, empty, isUnset, repairMember_key, member, first]
  | key later =>
    rw [List.map_cons, later.repair, plainEntries, plainEntry]
    simp [repair_obj, hasEmptyValue, Value.isUnset, repairMember_key]

end

/-- Under a name that the rewriting does not look for, a value is rewritten as it is elsewhere. -/
theorem repairMember_field (name : FieldName) (value : Json) :
    repairMember (name.name, value) = (name.name, repair value) := by
  have plain := name.plain
  simp only [reserved, List.mem_cons, not_or] at plain
  cases value with
  | str s => simp [repairMember, coerceMember, isIntKey, plain.1, plain.2.1, dropMember, dropEmpty,
      repair, coerceInts]
  | arr items => simp [repairMember, coerceMember, coerceInts, dropMember, plain.2.2.1, repair,
      dropEmpty]
  | _ => rfl

mutual

/-- However an exporter spells a request, it is rewritten to its plain form. -/
theorem Doc.Spells.repair {doc : Doc} {text : Json} (spells : doc.Spells text) :
    repair text = doc.plain := by
  cases spells with
  | scalar isScalar => rw [repair_scalar isScalar, Doc.plain]
  | value spells => rw [spells.repair, Doc.plain]
  | attributes each => rw [repair_arr, each.repair, Doc.plain]
  | list each => rw [repair_arr, each.repair, Doc.plain]
  | message each =>
    obtain ⟨kept, fields⟩ := each.repair
    rw [repair_obj, Doc.plain, ← fields]
    congr 2
    rw [List.filter_eq_self]
    intro member listed
    simp [kept member listed]

theorem SpellsDocs.repair {items : List Doc} {texts : List Json}
    (each : SpellsDocs items texts) : texts.map JsonDoor.repair = plainDocs items := by
  cases each with
  | nil => rfl
  | cons here later => rw [List.map_cons, here.repair, later.repair, plainDocs]

theorem SpellsFields.repair {fields : List (FieldName × Doc)} {members : List (String × Json)}
    (each : SpellsFields fields members) :
    (∀ member ∈ members, member.1 ≠ "value") ∧ members.map repairMember = plainFields fields := by
  cases each with
  | nil => exact ⟨by simp, rfl⟩
  | @cons name value fields text members here later =>
    obtain ⟨kept, rest⟩ := later.repair
    have plain := name.plain
    simp only [reserved, List.mem_cons, not_or] at plain
    refine ⟨List.forall_mem_cons.mpr ⟨plain.2.2.2.1, kept⟩, ?_⟩
    rw [List.map_cons, repairMember_field, here.repair, rest, plainFields, plainField]

end

/-! ## What is rewritten stays as it is -/

theorem dropMember_fst (member : String × Json) : (dropMember member).1 = member.1 := by
  obtain ⟨key, value⟩ := member
  cases value <;> rfl

theorem repairMember_fst (member : String × Json) : (repairMember member).1 = member.1 :=
  (dropMember_fst _).trans (coerceMember_fst member)

/-- A key stays when the value beside it goes. -/
theorem isEmptyObject_repair (value : Json) :
    isEmptyObject (repair value) = isEmptyObject value := by
  cases value with
  | obj members =>
    rw [repair_obj]
    by_cases empty : hasEmptyValue members = true
    · obtain ⟨hasKey, -⟩ := Bool.and_eq_true_iff.mp empty
      obtain ⟨member, listed, isKey⟩ := List.any_eq_true.mp hasKey
      have kept : member ∈ members.filter
          (fun m => !(hasEmptyValue members && m.1 = "value")) := by
        rw [List.mem_filter]
        exact ⟨listed, by simp [of_decide_eq_true isKey]⟩
      have nonempty : members ≠ [] := List.ne_nil_of_mem listed
      have nonempty' := List.ne_nil_of_mem kept
      cases filtered : members.filter (fun m => !(hasEmptyValue members && m.1 = "value")) with
      | nil => exact absurd filtered nonempty'
      | cons first rest =>
        cases members with
        | nil => exact absurd rfl nonempty
        | cons m ms => rfl
    · simp only [Bool.not_eq_true] at empty
      simp only [empty, Bool.false_and, Bool.not_false, List.filter_true]
      cases members <;> rfl
  | arr items => rw [repair_arr]; rfl
  | _ => rfl

theorem isEmptyObject_repairMember (member : String × Json) :
    isEmptyObject (repairMember member).2 = isEmptyObject member.2 := by
  obtain ⟨key, value⟩ := member
  cases value with
  | obj members => exact isEmptyObject_repair (.obj members)
  | str s =>
    simp only [repairMember, coerceMember]
    split_ifs
    · cases parseI64 s <;> rfl
    · rfl
  | _ => rfl

/-- The members of a rewritten object. -/
def repairedMembers (members : List (String × Json)) : List (String × Json) :=
  (members.filter (fun m => !(hasEmptyValue members && m.1 = "value"))).map repairMember

theorem hasEmptyValue_repaired (members : List (String × Json)) :
    hasEmptyValue (repairedMembers members) = false := by
  unfold repairedMembers
  cases empty : hasEmptyValue members with
  | true =>
    have noValue : (((members.filter (fun m => !(true && m.1 = "value"))).map repairMember).any
        (fun m => m.1 = "value" && isEmptyObject m.2)) = false := by
      simp only [List.any_map, List.any_filter, List.any_eq_false, Function.comp_apply,
        repairMember_fst]
      intro member _
      cases here : decide (member.1 = "value") <;> simp
    rw [hasEmptyValue, noValue, Bool.and_false]
  | false =>
    have same : hasEmptyValue (members.map repairMember) = hasEmptyValue members := by
      simp [hasEmptyValue, List.any_map, Function.comp_def, repairMember_fst,
        isEmptyObject_repairMember]
    simpa [empty] using same

theorem repair_repaired (members : List (String × Json)) :
    repair (.obj (repairedMembers members)) =
      .obj ((repairedMembers members).map repairMember) := by
  rw [repair_obj, hasEmptyValue_repaired]
  simp

mutual

theorem repair_repair : ∀ value : Json, repair (repair value) = repair value
  | .obj members => by
    have isRepaired : repair (.obj members) = .obj (repairedMembers members) := repair_obj members
    rw [isRepaired, repair_repaired, repairedMembers, List.map_map]
    congr 1
    apply List.map_congr_left
    intro member listed
    exact repairMembers_repair members member (List.mem_filter.mp listed).1
  | .arr items => by
    rw [repair_arr, repair_arr, List.map_map]
    congr 1
    apply List.map_congr_left
    intro item listed
    exact repairItems_repair items item listed
  | .null | .bool _ | .int _ | .float _ | .str _ => rfl

theorem repairItems_repair : ∀ items : List Json, ∀ item ∈ items,
    repair (repair item) = repair item
  | [] => by simp
  | first :: rest => by
    rw [List.forall_mem_cons]
    exact ⟨repair_repair first, repairItems_repair rest⟩

theorem repairMembers_repair : ∀ members : List (String × Json), ∀ member ∈ members,
    repairMember (repairMember member) = repairMember member
  | [] => by simp
  | first :: rest => by
    rw [List.forall_mem_cons]
    exact ⟨repairMember_repair first, repairMembers_repair rest⟩

theorem repairMember_repair : ∀ member : String × Json,
    repairMember (repairMember member) = repairMember member
  | (key, .obj members) => by
    have same := repair_repair (.obj members)
    rw [repairMember_obj, repair_obj]
    rw [repair_obj] at same
    rw [repairMember_obj, same]
  | (key, .arr items) => by
    have each := repairItems_repair items
    rw [repairMember_arr, repairMember_arr]
    congr 2
    rw [List.filter_eq_self.mpr, List.map_map]
    · apply List.map_congr_left
      intro item listed
      exact each item (List.mem_filter.mp listed).1
    · intro item' listed
      obtain ⟨item, kept, rfl⟩ := List.mem_map.mp listed
      rw [isEmptyObject_repair]
      exact (List.mem_filter.mp kept).2
  | (key, .str s) => by
    cases isInt : isIntKey key with
    | false => simp [repairMember, coerceMember, isInt, dropMember, dropEmpty]
    | true =>
      cases parsed : parseI64 s <;>
        simp [repairMember, coerceMember, isInt, parsed, dropMember, dropEmpty, coerceInts]
  | (key, .null) | (key, .bool _) | (key, .int _) | (key, .float _) => rfl

end

/-- However an exporter spells a request, with the whole numbers of its attributes as strings or
as numbers and its missing values as empty objects or left out, it is rewritten to the one plain
form that the reader takes, and once rewritten it stays as it is.  The times of a request are left
as they were sent. -/
theorem repair_spells {doc : Doc} {text : Json} (spells : doc.Spells text) :
    repair text = doc.plain ∧ repair doc.plain = doc.plain := by
  have plain := spells.repair
  refine ⟨plain, ?_⟩
  rw [← plain, repair_repair]

/-- An attribute whose value was left undefined, and a whole number as a string. -/
theorem repair_spells_attributes :
    repair (.arr [.obj [("key", .str "n"), ("value", .obj [("intValue", .str "-7")])],
        .obj [("key", .str "mcp_server_name"), ("value", .obj [])]]) =
      .arr [.obj [("key", .str "n"), ("value", .obj [("intValue", .int (-7))])],
        .obj [("key", .str "mcp_server_name")]] := by
  have seven : parseI64 "-7" = some (-7) := by decide
  have spells : (Doc.attributes [("n", .int (-7)), ("mcp_server_name", .unset)]).Spells _ :=
    .attributes (.cons (.text seven) (.cons .unset .nil))
  exact (repair_spells spells).1

end Evald.JsonDoor
