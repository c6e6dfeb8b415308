import Evald.Normalize
import Evald.Lib.Trim

/-! # Messages in the indexed shape

Each message is spread over attributes that name its index.  However they are mixed with
one another and with other attributes, the messages are those of the slots in their order,
up to the first index that is missing and to the cap on indices
(`indexedMessages_of_slots`).
-/

namespace Evald.Normalize

open Evald.Lib Evald.Otlp

/-- The attributes of one index by their fields, as they come off the wire. -/
structure Slot where
  fields : List (String × Option AnyValue)
  present : fields ≠ []
  distinct : (fields.map Prod.fst).Nodup

section Slots

variable (deps : Deps)

/-- The scalar text of a field. -/
def Slot.scalar (slot : Slot) (field : String) : Option String :=
  (slot.fields.lookup field).bind (fun value => value.bind (scalarString deps))

/-- The message of a slot that has a scalar role or a scalar content. -/
def Slot.message (slot : Slot) : Option Json :=
  messageJson (slot.scalar deps "role", slot.scalar deps "content")

/-- Index and field, behind the prefix of a kind. -/
def indexKey (kind : String) (i : Nat) (field : String) : String :=
  "gen_ai." ++ kind ++ "." ++ toString i ++ "." ++ field

def Slot.attributes (kind : String) (i : Nat) (slot : Slot) : List KeyValue :=
  slot.fields.map (fun (field, value) => .mk (indexKey kind i field) value)

/-- The attributes of slots with the indices from `i` on. -/
def slotAttributes (kind : String) : Nat → List Slot → List KeyValue
  | _, [] => []
  | i, slot :: slots => slot.attributes kind i ++ slotAttributes kind (i + 1) slots

/-- A key that names an index, in whatever spelling the index reads. -/
def NamesIndex (kind key : String) (i : Nat) : Prop :=
  ∃ digits field, key = "gen_ai." ++ kind ++ "." ++ digits ++ "." ++ field ∧
    '.' ∉ digits.toList ∧ parseU64 digits = some i

/-! ## One attribute -/

/-- The index and the field an attribute names. -/
def namedField (start : String) (kv : KeyValue) : Option (Nat × String) :=
  (stripPrefix kv.key start).bind messageKey

theorem namedField_eq_some {kind : String} {kv : KeyValue} {i : Nat} {field : String} :
    namedField ("gen_ai." ++ kind ++ ".") kv = some (i, field) ↔ i < maxIndexedMessages ∧
      ∃ digits, kv.key = "gen_ai." ++ kind ++ "." ++ digits ++ "." ++ field ∧
        '.' ∉ digits.toList ∧ parseU64 digits = some i := by
  unfold namedField messageKey
  rw [Option.bind_eq_some_iff]
  constructor
  · rintro ⟨rest, isRest, read⟩
    rw [stripPrefix_eq_some] at isRest
    split at read
    · next digits behind parts =>
      split at read
      · next number isNumber =>
        split at read
        · cases read
        · next small =>
          cases read
          obtain ⟨split, undotted⟩ := splitOnce_eq_some.mp parts
          refine ⟨Nat.lt_of_not_le small, digits, ?_, undotted, isNumber⟩
          rw [isRest, ← String.toList_inj, String.toList_append, split]
          simp [String.toList_append]
      · cases read
    · cases read
  · rintro ⟨small, digits, isKey, undotted, isNumber⟩
    refine ⟨digits ++ "." ++ field, ?_, ?_⟩
    · rw [stripPrefix_eq_some, isKey]
      simp only [String.append_assoc]
    · have parts : splitOnce (digits ++ "." ++ field) '.' = some (digits, field) := by
        rw [splitOnce_eq_some]
        exact ⟨by simp [String.toList_append], undotted⟩
      simp only [parts, isNumber, if_neg (Nat.not_le_of_lt small)]

/-- What an attribute says of an index: the field, with its scalar text. -/
def fieldOf (start : String) (i : Nat) (kv : KeyValue) : Option (String × Option String) :=
  match namedField start kv with
  | some (j, field) => if j = i then some (field, kv.value.bind (scalarString deps)) else none
  | none => none

/-- One field of an index that may not have been seen. -/
def enter (entry : Option (Option String × Option String)) (field : String × Option String) :
    Option (Option String × Option String) :=
  let (role, content) := entry.getD (none, none)
  if field.1 = "role" then some (field.2, content)
  else if field.1 = "content" then some (role, field.2)
  else some (role, content)

theorem getElem?_indexMessage (start : String) (byIndex : Messages) (kv : KeyValue) (i : Nat) :
    (indexMessage deps start byIndex kv)[i]? =
      (fieldOf deps start i kv).toList.foldl enter byIndex[i]? := by
  unfold indexMessage fieldOf
  show (match namedField start kv with | some (j, field) => _ | none => _)[i]? = _
  cases named : namedField start kv with
  | none => rfl
  | some place =>
    obtain ⟨j, field⟩ := place
    by_cases same : j = i
    · subst same
      simp only [if_true, Option.toList_some, List.foldl_cons, List.foldl_nil, enter,
        Std.ExtTreeMap.getD_eq_getD_getElem?]
      split
      · simp
      · split <;> simp
    · simp only [if_neg same, Option.toList_none, List.foldl_nil]
      split
      · simp [Std.ExtTreeMap.getElem?_insert, same]
      · split <;> simp [Std.ExtTreeMap.getElem?_insert, same]

theorem getElem?_foldl_indexMessage (start : String) (attrs : List KeyValue) (i : Nat)
    (byIndex : Messages) : (attrs.foldl (indexMessage deps start) byIndex)[i]? =
      (attrs.filterMap (fieldOf deps start i)).foldl enter byIndex[i]? := by
  induction attrs generalizing byIndex with
  | nil => rfl
  | cons kv attrs inductionHypothesis =>
    rw [List.foldl_cons, inductionHypothesis, getElem?_indexMessage, ← List.foldl_append]
    cases named : fieldOf deps start i kv with
    | none => rw [List.filterMap_cons_none named]; rfl
    | some field => rw [List.filterMap_cons_some named]; rfl

/-! ## One index -/

/-- Different fields of an index can be seen in either order. -/
theorem enter_comm {f g : String × Option String} (differ : f.1 ≠ g.1)
    (entry : Option (Option String × Option String)) :
    enter (enter entry f) g = enter (enter entry g) f := by
  unfold enter
  by_cases role : f.1 = "role"
  · have other : g.1 ≠ "role" := fun same => differ (role.trans same.symm)
    by_cases content : g.1 = "content" <;> simp [role, other, content]
  · by_cases content : f.1 = "content"
    · have other : g.1 ≠ "content" := fun same => differ (content.trans same.symm)
      by_cases role' : g.1 = "role" <;> simp [content, other, role']
    · by_cases role' : g.1 = "role"
      · simp [role, content, role']
      · by_cases content' : g.1 = "content" <;> simp [role, content, role', content']

theorem enter_eq (entry : Option (Option String × Option String)) (field : String × Option String) :
    enter entry field =
      some (if field.1 = "role" then field.2 else (entry.getD (none, none)).1,
        if field.1 = "content" then field.2 else (entry.getD (none, none)).2) := by
  unfold enter
  by_cases role : field.1 = "role"
  · simp [role]
  · by_cases content : field.1 = "content" <;> simp [role, content]

theorem foldl_enter_perm {fields fields' : List (String × Option String)}
    (perm : fields.Perm fields') (distinct : (fields.map Prod.fst).Nodup)
    (entry : Option (Option String × Option String)) :
    fields.foldl enter entry = fields'.foldl enter entry := by
  refine perm.foldl_eq' (fun f inside g inside' e => ?_) entry
  by_cases same : f.1 = g.1
  · rw [List.inj_on_of_nodup_map distinct inside inside' same]
  · exact enter_comm same e

/-- What is known of an index once its fields are seen. -/
theorem foldl_enter {fields : List (String × Option String)}
    (distinct : (fields.map Prod.fst).Nodup) (entry : Option (Option String × Option String))
    (present : fields ≠ []) :
    fields.foldl enter entry =
      some ((fields.lookup "role").getD (entry.getD (none, none)).1,
        (fields.lookup "content").getD (entry.getD (none, none)).2) := by
  induction fields generalizing entry with
  | nil => exact absurd rfl present
  | cons field rest inductionHypothesis =>
    obtain ⟨name, value⟩ := field
    rw [List.map_cons, List.nodup_cons] at distinct
    have unseen (key : String) (same : name = key) : rest.lookup key = none := by
      rw [List.lookup_eq_none_iff]
      intro entry inside
      rw [bne_iff_ne, ← same]
      intro repeated
      exact distinct.1 (List.mem_map.mpr ⟨entry, inside, repeated.symm⟩)
    have first (key : String) (before : Option String) :
        (((name, value) :: rest).lookup key).getD before =
          (rest.lookup key).getD (if name = key then value else before) := by
      by_cases same : name = key
      · rw [unseen key same, same]
        simp
      · have differ : (key == name) = false := by simpa using Ne.symm same
        rw [List.lookup_cons, differ, if_neg same]
    rw [List.foldl_cons, enter_eq, first, first]
    cases rest with
    | nil => rfl
    | cons next rest =>
      rw [inductionHypothesis distinct.2 _ (by simp)]
      rfl

/-! ## The attributes of the slots -/

theorem isDigit_toString {i : Nat} {c : Char} (member : c ∈ (toString i).toList) :
    c.isDigit = true := by
  rw [Nat.toString_eq_ofList_toDigits, String.toList_ofList] at member
  exact Nat.isDigit_of_mem_toDigits (by decide) (by decide) member

theorem undotted_toString (i : Nat) : '.' ∉ (toString i).toList := by
  intro member
  cases isDigit_toString member

/-- An index is read back from its decimal text. -/
theorem parseU64_toString (i : Nat) :
    parseU64 (toString i) = if i < 2 ^ 64 then some i else none := by
  have digits : (toString i).toList = Nat.toDigits 10 i := by
    rw [Nat.toString_eq_ofList_toDigits, String.toList_ofList]
  have read : parseDigits (Nat.toDigits 10 i) = some i := by
    have all : (Nat.toDigits 10 i).all Char.isDigit = true := by
      rw [List.all_eq_true]
      intro c member
      exact Nat.isDigit_of_mem_toDigits (by decide) (by decide) member
    simp [parseDigits, all, Nat.toDigits_ne_nil]
  unfold parseU64
  rw [digits]
  split
  · next rest signed =>
    have first : '+' ∈ Nat.toDigits 10 i := by simp [signed]
    cases Nat.isDigit_of_mem_toDigits (by decide) (by decide) first
  · simp only [read, Option.filter_some, decide_eq_true_eq]

theorem namedField_indexKey (kind field : String) (i : Nat) (value : Option AnyValue) :
    namedField ("gen_ai." ++ kind ++ ".") (.mk (indexKey kind i field) value) =
      if i < maxIndexedMessages then some (i, field) else none := by
  have behind : stripPrefix (indexKey kind i field) ("gen_ai." ++ kind ++ ".") =
      some (toString i ++ "." ++ field) := by
    rw [stripPrefix_eq_some, indexKey]
    simp only [String.append_assoc]
  have parts : splitOnce (toString i ++ "." ++ field) '.' = some (toString i, field) := by
    rw [splitOnce_eq_some]
    exact ⟨by simp [String.toList_append], undotted_toString i⟩
  show (stripPrefix (indexKey kind i field) _).bind messageKey = _
  rw [behind, Option.bind_some, messageKey]
  simp only [parts, parseU64_toString]
  by_cases small : i < maxIndexedMessages
  · have fits : i < 2 ^ 64 := Nat.lt_trans small (by decide)
    simp only [if_pos fits, if_neg (Nat.not_le_of_lt small), if_pos small]
  · by_cases fits : i < 2 ^ 64
    · simp only [if_pos fits, if_pos (Nat.le_of_not_lt small), if_neg small]
    · simp only [if_neg fits, if_neg small]

/-- The fields of a slot, as an index sees them. -/
def Slot.scalars (slot : Slot) : List (String × Option String) :=
  slot.fields.map (fun (field, value) => (field, value.bind (scalarString deps)))

theorem filterMap_attributes (kind : String) (i j : Nat) (small : j < maxIndexedMessages)
    (slot : Slot) :
    (slot.attributes kind i).filterMap (fieldOf deps ("gen_ai." ++ kind ++ ".") j) =
      if i = j then slot.scalars deps else [] := by
  unfold Slot.attributes Slot.scalars
  rw [List.filterMap_map]
  by_cases same : i = j
  · rw [if_pos same, ← List.filterMap_eq_map]
    refine List.filterMap_congr (fun (field, value) _ => ?_)
    simp [fieldOf, namedField_indexKey, same, small, KeyValue.value]
  · rw [if_neg same, List.filterMap_eq_nil_iff]
    intro (field, value) _
    simp only [Function.comp_apply, fieldOf, namedField_indexKey]
    split
    · next place named =>
      split at named <;> cases named
      rw [if_neg same]
    · rfl

/-- What the attributes of the slots say of an index below the cap: the fields of its slot. -/
theorem filterMap_slotAttributes (kind : String) (j : Nat) (small : j < maxIndexedMessages)
    (slots : List Slot) (i : Nat) :
    (slotAttributes kind i slots).filterMap (fieldOf deps ("gen_ai." ++ kind ++ ".") j) =
      if i ≤ j then (slots[j - i]?.map (fun slot => slot.scalars deps)).getD [] else [] := by
  induction slots generalizing i with
  | nil => simp [slotAttributes]
  | cons slot slots inductionHypothesis =>
    rw [slotAttributes, List.filterMap_append, filterMap_attributes deps kind i j small,
      inductionHypothesis]
    obtain before | rfl | behind := Nat.lt_trichotomy i j
    · have next : j - i = (j - (i + 1)) + 1 := by omega
      rw [if_neg (Nat.ne_of_lt before), if_pos (Nat.succ_le_of_lt before),
        if_pos (Nat.le_of_lt before), next, List.getElem?_cons_succ, List.nil_append]
    · simp
    · rw [if_neg (Nat.ne_of_gt behind), if_neg (by omega), if_neg (by omega), List.nil_append]

theorem fieldOf_unnamed {kind : String} {j : Nat} {kv : KeyValue}
    (unnamed : ¬ NamesIndex kind kv.key j) :
    fieldOf deps ("gen_ai." ++ kind ++ ".") j kv = none := by
  unfold fieldOf
  split
  · next i field named =>
    obtain ⟨-, digits, isKey, undotted, isNumber⟩ := namedField_eq_some.mp named
    rw [if_neg]
    rintro rfl
    exact unnamed ⟨digits, field, isKey, undotted, isNumber⟩
  · rfl

theorem lookup_scalars (slot : Slot) (field : String) :
    ((slot.scalars deps).lookup field).getD none = slot.scalar deps field := by
  unfold Slot.scalars Slot.scalar
  induction slot.fields with
  | nil => rfl
  | cons entry rest inductionHypothesis =>
    obtain ⟨name, value⟩ := entry
    rw [List.map_cons, List.lookup_cons, List.lookup_cons]
    cases field == name with
    | true => rfl
    | false => exact inductionHypothesis

section Mixed

variable {deps} {kind : String} {slots : List Slot} {attrs others : List KeyValue}

/-- What is known of an index once every attribute is seen, in whatever order. -/
theorem getElem?_mixed (mixed : attrs.Perm (slotAttributes kind 0 slots ++ others)) {j : Nat}
    (small : j < maxIndexedMessages)
    (silent : others.filterMap (fieldOf deps ("gen_ai." ++ kind ++ ".") j) = []) :
    (attrs.foldl (indexMessage deps ("gen_ai." ++ kind ++ ".")) ∅)[j]? =
      slots[j]?.map (fun slot => (slot.scalar deps "role", slot.scalar deps "content")) := by
  have fields := mixed.filterMap (fieldOf deps ("gen_ai." ++ kind ++ ".") j)
  rw [List.filterMap_append, silent, List.append_nil,
    filterMap_slotAttributes deps kind j small, if_pos (Nat.zero_le j), Nat.sub_zero] at fields
  rw [getElem?_foldl_indexMessage]
  cases isSlot : slots[j]? with
  | none =>
    rw [isSlot] at fields
    rw [List.Perm.eq_nil fields]
    simp
  | some slot =>
    rw [isSlot] at fields
    have names : (slot.scalars deps).map Prod.fst = slot.fields.map Prod.fst := by
      simp [Slot.scalars]
    have distinct : ((slot.scalars deps).map Prod.fst).Nodup := by rw [names]; exact slot.distinct
    have present : slot.scalars deps ≠ [] := by simpa [Slot.scalars] using slot.present
    rw [← foldl_enter_perm fields.symm distinct]
    show (slot.scalars deps).foldl enter _ = _
    rw [foldl_enter distinct _ present]
    simp [lookup_scalars]

/-- The scan from an index on, which stops behind the last slot or at the cap. -/
theorem contiguous_slots {byIndex : Messages}
    (known : ∀ j < maxIndexedMessages, j ≤ slots.length → byIndex[j]? =
      slots[j]?.map (fun slot => (slot.scalar deps "role", slot.scalar deps "content")))
    (fuel i : Nat) (whole : i + fuel = maxIndexedMessages) (reached : i ≤ slots.length) :
    contiguous byIndex fuel i =
      ((slots.drop i).take fuel).filterMap (fun slot => slot.message deps) := by
  induction fuel generalizing i with
  | zero => simp [contiguous]
  | succ fuel inductionHypothesis =>
    unfold contiguous
    rw [known i (by omega) reached]
    by_cases more : i < slots.length
    · rw [List.getElem?_eq_getElem more, List.drop_eq_getElem_cons more, List.take_succ_cons,
        inductionHypothesis (i + 1) (by omega) more]
      show (Slot.message deps slots[i]).toList ++ _ = _
      cases isMessage : Slot.message deps slots[i] with
      | none => rw [List.filterMap_cons_none isMessage]; rfl
      | some message => rw [List.filterMap_cons_some isMessage]; rfl
    · rw [List.getElem?_eq_none (by omega), List.drop_eq_nil_of_le (by omega)]
      rfl

/-- Messages as the text of an array; no messages are none. -/
def renderedMessages (deps : Deps) (messages : List Json) : Option String :=
  if messages = [] then none else some (deps.renderJson (.arr messages))

/-- The messages of the first slots, up to the cap. -/
theorem indexedMessages_eq (mixed : attrs.Perm (slotAttributes kind 0 slots ++ others))
    (silent : ∀ j < maxIndexedMessages, j ≤ slots.length →
      others.filterMap (fieldOf deps ("gen_ai." ++ kind ++ ".") j) = []) :
    indexedMessages deps attrs kind = renderedMessages deps
      ((slots.take maxIndexedMessages).filterMap (fun slot => slot.message deps)) := by
  have scanned := contiguous_slots (fun j small reached =>
    getElem?_mixed mixed small (silent j small reached)) maxIndexedMessages 0 (Nat.zero_add _)
      (Nat.zero_le _)
  unfold indexedMessages renderedMessages
  simp only [scanned, List.drop_zero, List.isEmpty_iff]

theorem silent_of_unnamed (unnamed : ∀ kv ∈ others, ∀ i ≤ slots.length, ¬ NamesIndex kind kv.key i)
    {j : Nat} (reached : j ≤ slots.length) :
    others.filterMap (fieldOf deps ("gen_ai." ++ kind ++ ".") j) = [] := by
  rw [List.filterMap_eq_nil_iff]
  exact fun kv inside => fieldOf_unnamed deps (unnamed kv inside j reached)

/-- The messages of all the slots, in the order of their indices, whatever else is among the
attributes; the same where the next index is missing and others come behind it. -/
theorem indexedMessages_of_slots {after : List Slot} (few : slots.length ≤ maxIndexedMessages)
    (unnamed : ∀ kv ∈ others, ∀ i ≤ slots.length, ¬ NamesIndex kind kv.key i) :
    (attrs.Perm (slotAttributes kind 0 slots ++ others) →
      indexedMessages deps attrs kind =
        renderedMessages deps (slots.filterMap (fun slot => slot.message deps))) ∧
    (attrs.Perm (slotAttributes kind 0 slots ++
        (slotAttributes kind (slots.length + 1) after ++ others)) →
      indexedMessages deps attrs kind =
        renderedMessages deps (slots.filterMap (fun slot => slot.message deps))) := by
  have all : slots.take maxIndexedMessages = slots := List.take_of_length_le few
  constructor
  · intro mixed
    rw [indexedMessages_eq mixed (fun j _ reached => silent_of_unnamed unnamed reached), all]
  · intro mixed
    have silent (j : Nat) (small : j < maxIndexedMessages) (reached : j ≤ slots.length) :
        (slotAttributes kind (slots.length + 1) after ++ others).filterMap
          (fieldOf deps ("gen_ai." ++ kind ++ ".") j) = [] := by
      rw [List.filterMap_append, silent_of_unnamed unnamed reached, List.append_nil,
        filterMap_slotAttributes deps kind j small, if_neg (by omega)]
    rw [indexedMessages_eq mixed silent, all]

end Mixed

end Slots

def said (role content : String) : Slot where
  fields := [("role", some (.string role)), ("content", some (.string content))]
  present := by simp
  distinct := by simp

/-- A slot with a structured content alone. -/
def structured : Slot where
  fields := [("content", some (.array []))]
  present := by simp
  distinct := by simp

theorem indexedMessages_of_slots_threeSlots :
    let slots := [said "user" "hi", structured, said "assistant" "hello"]
    let attrs := (slotAttributes "prompt" 0 slots ++ [KeyValue.mk "service.name" none]).reverse
    indexedMessages Deps.hashing attrs "prompt" = renderedMessages Deps.hashing
      (slots.filterMap (fun slot => slot.message Deps.hashing)) := by
  intro slots attrs
  have unnamed : ∀ kv ∈ [KeyValue.mk "service.name" none], ∀ i ≤ slots.length,
      ¬ NamesIndex "prompt" kv.key i := by
    intro kv inside i _ ⟨digits, field, isKey, _⟩
    rw [List.mem_singleton.mp inside] at isKey
    have start := congrArg (fun key => key.toList.head?) isKey
    simp [KeyValue.key, String.toList_append] at start
  have both := @indexedMessages_of_slots Deps.hashing "prompt" slots attrs
    [KeyValue.mk "service.name" none] [] (by decide) unnamed
  exact both.1 (List.reverse_perm _)

/-- Slots without a message count against the cap. -/
theorem message_behind_structured :
    let slots := List.replicate 4096 structured ++ [said "user" "hi"]
    slots.filterMap (fun slot => slot.message Deps.hashing) =
      [.obj [("content", .str "hi"), ("role", .str "user")]] ∧
    indexedMessages Deps.hashing (slotAttributes "prompt" 0 slots) "prompt" = none := by
  intro slots
  have blank : structured.message Deps.hashing = none := rfl
  have blanks : (List.replicate 4096 structured).filterMap
      (fun slot => slot.message Deps.hashing) = [] := by
    rw [List.filterMap_eq_nil_iff]
    intro slot inside
    rw [List.eq_of_mem_replicate inside, blank]
  constructor
  · rw [List.filterMap_append, blanks]
    rfl
  · have mixed : (slotAttributes "prompt" 0 slots).Perm
        (slotAttributes "prompt" 0 slots ++ []) := by
      rw [List.append_nil]
    rw [indexedMessages_eq mixed (fun _ _ _ => rfl)]
    have first : slots.take maxIndexedMessages = List.replicate 4096 structured :=
      List.take_left' (List.length_replicate)
    rw [first, blanks]
    rfl

end Evald.Normalize
