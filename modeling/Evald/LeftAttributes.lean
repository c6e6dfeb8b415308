import Evald.JsonForms
import Evald.Attributes
import Evald.Traces

/-! # What is read of the attributes that are left

A key without a value is read as one whose value is empty, and an empty item is never read as a
text or a number.  So a span is normalized alike from the attributes that are left of its own,
but for the copy of them: there an array lacks its empty items (`readSpan_left`).  Which arrays
these are is a matter of the last attribute of each key (`ItemsSet`), and the copy keeps them
through everything that is done to a span afterwards, under any key but evald's own (`Keeps`).
-/

namespace Evald.JsonDoor

open Evald.Lib Evald.Otlp Evald.Normalize

/-! ## Texts and numbers -/

section Reading

variable (attrs : List KeyValue)

theorem attr_left (key : String) :
    attr (leftAttributes attrs) key = leftOption (attr attrs key) := by
  have sameKey : (fun kv : KeyValue => decide (kv.key = key)) ∘ left =
      fun kv => decide (kv.key = key) := rfl
  rw [attr, attr, leftAttributes, List.find?_map, sameKey]
  cases attrs.find? (fun kv => decide (kv.key = key)) <;> rfl

variable (deps : Deps)

/-- A scalar stays, and nothing else has a text. -/
theorem scalarString_left (value : Option AnyValue) :
    (leftOption value).bind (scalarString deps) = value.bind (scalarString deps) := by
  cases value with
  | none => rfl
  | some value => cases value <;> rfl

@[simp] theorem attrStr_left (key : String) :
    attrStr deps (leftAttributes attrs) key = attrStr deps attrs key := by
  rw [attrStr, attrStr, attr_left, scalarString_left]

@[simp] theorem attrU64_left (key : String) :
    attrU64 (leftAttributes attrs) key = attrU64 attrs key := by
  rw [attrU64, attrU64, attr_left]
  cases attr attrs key with
  | none => rfl
  | some value => cases value <;> rfl

@[simp] theorem attrF64_left (key : String) :
    attrF64 deps (leftAttributes attrs) key = attrF64 deps attrs key := by
  rw [attrF64, attrF64, attr_left]
  cases attr attrs key with
  | none => rfl
  | some value => cases value <;> rfl

@[simp] theorem firstStr_left (keys : List String) :
    firstStr deps (leftAttributes attrs) keys = firstStr deps attrs keys := by
  rw [firstStr, firstStr, funext (attrStr_left attrs deps)]

@[simp] theorem firstU64_left (keys : List String) :
    firstU64 (leftAttributes attrs) keys = firstU64 attrs keys := by
  rw [firstU64, firstU64, funext (attrU64_left attrs)]

@[simp] theorem firstF64_left (keys : List String) :
    firstF64 deps (leftAttributes attrs) keys = firstF64 deps attrs keys := by
  rw [firstF64, firstF64, funext (attrF64_left attrs deps)]

theorem inferOiKind_left : inferOiKind deps (leftAttributes attrs) = inferOiKind deps attrs := by
  simp only [inferOiKind, attrStr_left, operationKind, hasGenaiCall]
  simp only [leftAttributes, List.any_map, Function.comp_def, left_key]
  rfl

theorem detectDialect_left : detectDialect (leftAttributes attrs) = detectDialect attrs := by
  simp only [detectDialect, leftAttributes, List.any_map, Function.comp_def, left_key]
  rfl

theorem indexMessage_left (start : String) (byIndex : Messages) (kv : KeyValue) :
    indexMessage deps start byIndex (left kv) = indexMessage deps start byIndex kv := by
  simp only [indexMessage, left_key, left_value, scalarString_left]

theorem indexedMessages_left (kind : String) :
    indexedMessages deps (leftAttributes attrs) kind = indexedMessages deps attrs kind := by
  simp only [indexedMessages, leftAttributes, List.foldl_map, indexMessage_left]

theorem reportedTokens_left : reportedTokens (leftAttributes attrs) = reportedTokens attrs := by
  simp only [reportedTokens, firstU64_left]

end Reading

/-- Only the copy of the attributes differs. -/
theorem readSpan_left (deps : Deps) (span : Span) (service name version : Option String) :
    readSpan deps { span with attributes := leftAttributes span.attributes } service name version =
      { readSpan deps span service name version with
        rawAttributes := rawAttributes (leftAttributes span.attributes) } := by
  simp only [readSpan, detectDialect_left, attrStr_left, inferOiKind_left, firstStr_left,
    firstF64_left, reportedTokens_left, indexedMessages_left]

mutual

/-- No array that is seen of a value has an empty item: of the entries of one key the last is
seen. -/
def isSet : AnyValue → Bool
  | .array values => itemsSet values
  | .kvlist values => entriesSet values
  | _ => true

def itemsSet : List AnyValue → Bool
  | [] => true
  | value :: values => !isUnset value && isSet value && itemsSet values

def entriesSet : List KeyValue → Bool
  | [] => true
  | .mk key value :: entries =>
    (entries.any (fun kv => kv.key = key) || optionSet value) && entriesSet entries

def optionSet : Option AnyValue → Bool
  | none => true
  | some value => isSet value

end

/-- The later value of a key stands in place of the earlier one. -/
theorem insertMember_again (key : String) (value value' : Json) (members : List (String × Json)) :
    insertMember key value' (insertMember key value members) =
      insertMember key value' members := by
  induction members with
  | nil => simp [insertMember]
  | cons member members inductionHypothesis =>
    obtain ⟨k, v⟩ := member
    cases order : compare key k with
    | lt => simp [insertMember, order]
    | eq => simp [insertMember, order]
    | gt => simp [insertMember, order, inductionHypothesis]

theorem insertMember_comm_of_lt {key key' : String} (before : compare key key' = .lt)
    (value value' : Json) (members : List (String × Json)) :
    insertMember key value (insertMember key' value' members) =
      insertMember key' value' (insertMember key value members) := by
  have after : compare key' key = .gt := Std.OrientedCmp.gt_of_lt before
  induction members with
  | nil => simp [insertMember, before, after]
  | cons member members inductionHypothesis =>
    obtain ⟨k, v⟩ := member
    cases order' : compare key' k with
    | lt =>
      have order : compare key k = .lt := Std.TransCmp.lt_trans before order'
      simp [insertMember, order, order', before, after]
    | eq =>
      have order : compare key k = .lt := Std.TransCmp.lt_of_lt_of_eq before order'
      simp [insertMember, order, order', before, after]
    | gt =>
      cases order : compare key k with
      | lt => simp [insertMember, order, order', after]
      | eq => simp [insertMember, order, order', after]
      | gt => simp [insertMember, order, order', inductionHypothesis]

/-- Two keys, in either order. -/
theorem insertMember_comm {key key' : String} (other : key ≠ key') (value value' : Json)
    (members : List (String × Json)) :
    insertMember key value (insertMember key' value' members) =
      insertMember key' value' (insertMember key value members) := by
  cases order : compare key key' with
  | lt => exact insertMember_comm_of_lt order value value' members
  | eq => exact absurd (Std.LawfulEqOrd.compare_eq_iff_eq.mp order) other
  | gt => exact (insertMember_comm_of_lt (Std.OrientedCmp.lt_of_gt order) value' value members).symm

theorem lookup_cons_if (key k : String) (v : Json) (members : List (String × Json)) :
    ((k, v) :: members).lookup key = if key = k then some v else members.lookup key := by
  rw [List.lookup_cons]
  split_ifs with here
  · rw [beq_iff_eq.mpr here]
  · rw [beq_eq_false_iff_ne.mpr here]

theorem lookup_insertMember (key key' : String) (value : Json) (members : List (String × Json)) :
    (insertMember key value members).lookup key' =
      if key' = key then some value else members.lookup key' := by
  induction members with
  | nil => exact lookup_cons_if key' key value []
  | cons member members inductionHypothesis =>
    obtain ⟨k, v⟩ := member
    rw [insertMember, lookup_cons_if key' k]
    cases order : compare key k with
    | lt => simp only [lookup_cons_if]
    | eq =>
      have same : key = k := Std.LawfulEqOrd.compare_eq_iff_eq.mp order
      simp only [lookup_cons_if, same]
      split_ifs <;> rfl
    | gt =>
      have other : key ≠ k := by
        rintro rfl
        rw [Std.ReflOrd.compare_self] at order
        cases order
      simp only [lookup_cons_if, inductionHypothesis]
      by_cases here : key' = k
      · rw [if_pos here, if_pos here, if_neg (fun same => other (same.symm.trans here))]
      · rw [if_neg here, if_neg here]

/-- A member that a later entry replaces might as well not be there. -/
theorem membersToJson_hidden {key : String} {entries : List KeyValue}
    (later : entries.any (fun kv => kv.key = key) = true) (value : Json)
    (members : List (String × Json)) :
    membersToJson entries (insertMember key value members) = membersToJson entries members := by
  induction entries generalizing members with
  | nil => cases later
  | cons kv entries inductionHypothesis =>
    obtain ⟨k, v⟩ := kv
    rw [membersToJson, membersToJson]
    by_cases here : k = key
    · rw [here, insertMember_again]
    · rw [List.any_cons, Bool.or_eq_true] at later
      rw [insertMember_comm here, inductionHypothesis (later.resolve_left (by simp [here]))]

theorem lookup_membersToJson {key : String} {entries : List KeyValue}
    (last : entries.any (fun kv => kv.key = key) = false) (members : List (String × Json)) :
    (membersToJson entries members).lookup key = members.lookup key := by
  induction entries generalizing members with
  | nil => rfl
  | cons kv entries inductionHypothesis =>
    obtain ⟨k, v⟩ := kv
    rw [List.any_cons, Bool.or_eq_false_iff] at last
    have other : key ≠ k := by simpa [eq_comm] using last.1
    rw [membersToJson, inductionHypothesis last.2, lookup_insertMember, if_neg other]

theorem any_key_leftEntries (entries : List KeyValue) (key : String) :
    (leftEntries entries).any (fun kv => kv.key = key) = entries.any (fun kv => kv.key = key) := by
  rw [leftEntries_eq_map, List.any_map]
  rfl

theorem length_arrayToJson (values : List AnyValue) :
    (arrayToJson values).length = values.length := by
  induction values with
  | nil => rfl
  | cons value values inductionHypothesis =>
    rw [arrayToJson, List.length_cons, inductionHypothesis, List.length_cons]

theorem length_leftItems_le (values : List AnyValue) :
    (leftItems values).length ≤ values.length := by
  induction values with
  | nil => exact le_rfl
  | cons value values inductionHypothesis =>
    rw [leftItems, List.length_cons]
    split_ifs
    · exact inductionHypothesis.trans (Nat.le_succ _)
    · exact Nat.succ_le_succ inductionHypothesis

mutual

/-- The copy of a value stays as long as no array that is seen of it loses an item. -/
theorem anyvalueToJson_left_iff (value : AnyValue) :
    anyvalueToJson (leftValue value) = anyvalueToJson value ↔ isSet value = true := by
  cases value with
  | array values =>
    rw [leftValue, anyvalueToJson, anyvalueToJson, isSet, Json.arr.injEq]
    exact arrayToJson_left_iff values
  | kvlist values =>
    rw [leftValue, anyvalueToJson, anyvalueToJson, isSet, Json.obj.injEq]
    exact ⟨entriesSet_of_left values, fun set => membersToJson_left values set []⟩
  | _ => exact iff_of_true rfl rfl

theorem arrayToJson_left_iff (values : List AnyValue) :
    arrayToJson (leftItems values) = arrayToJson values ↔ itemsSet values = true := by
  cases values with
  | nil => exact iff_of_true rfl rfl
  | cons value values =>
    have here := anyvalueToJson_left_iff value
    have later := arrayToJson_left_iff values
    rw [leftItems, itemsSet]
    split_ifs with unset
    · refine iff_of_false (fun same => ?_) (by simp [unset])
      have lengths := congrArg List.length same
      rw [length_arrayToJson, length_arrayToJson, List.length_cons] at lengths
      have shorter := length_leftItems_le values
      omega
    · rw [arrayToJson, arrayToJson, List.cons.injEq, here, later]
      simp [unset]

theorem membersToJson_left (entries : List KeyValue) (set : entriesSet entries = true)
    (members : List (String × Json)) :
    membersToJson (leftEntries entries) members = membersToJson entries members := by
  cases entries with
  | nil => rfl
  | cons kv entries =>
    obtain ⟨key, value⟩ := kv
    rw [entriesSet, Bool.and_eq_true, Bool.or_eq_true] at set
    have rest := membersToJson_left entries set.2
    rw [leftEntries, membersToJson, membersToJson, rest]
    obtain hidden | seen := set.1
    · rw [membersToJson_hidden hidden, membersToJson_hidden hidden]
    · rw [(valueToJson_left_iff value).mpr seen]

theorem entriesSet_of_left (entries : List KeyValue) {members members' : List (String × Json)}
    (same : membersToJson (leftEntries entries) members = membersToJson entries members') :
    entriesSet entries = true := by
  cases entries with
  | nil => rfl
  | cons kv entries =>
    obtain ⟨key, value⟩ := kv
    rw [leftEntries, membersToJson, membersToJson] at same
    rw [entriesSet, Bool.and_eq_true, Bool.or_eq_true]
    refine ⟨?_, entriesSet_of_left entries same⟩
    cases hidden : entries.any (fun kv => kv.key = key) with
    | true => exact .inl rfl
    | false =>
      have seen := congrArg (List.lookup key) same
      rw [lookup_membersToJson (by rw [any_key_leftEntries, hidden]), lookup_membersToJson hidden,
        lookup_insertMember, lookup_insertMember, if_pos rfl, if_pos rfl, Option.some_inj] at seen
      exact .inr ((valueToJson_left_iff value).mp seen)

theorem valueToJson_left_iff (value : Option AnyValue) :
    valueToJson (leftOption value) = valueToJson value ↔ optionSet value = true := by
  cases value with
  | none => exact iff_of_true rfl rfl
  | some value =>
    have inside := anyvalueToJson_left_iff value
    rw [leftOption, optionSet]
    split_ifs with unset
    · cases value <;> first | exact iff_of_true rfl rfl | cases unset
    · exact inside

end

/-! ## The copy of the attributes -/

/-- Of the attributes under other keys, the last one of each has no array with an empty item that
is seen. -/
def ItemsSet (hidden : List String) (attrs : List KeyValue) : Prop :=
  ∀ key ∉ hidden, ∀ kv, attrs.reverse.find? (fun kv => kv.key = key) = some kv →
    optionSet kv.value = true

theorem getElem?_rawAttributes_left (attrs : List KeyValue) (key : String) :
    (rawAttributes (leftAttributes attrs))[key]? =
      (attrs.reverse.find? (fun kv => kv.key = key)).map
        (fun kv => valueToJson (leftOption kv.value)) := by
  rw [getElem?_rawAttributes, leftAttributes, ← List.map_reverse, List.find?_map, Option.map_map]
  rfl

theorem rawAttributes_left {attrs : List KeyValue} (set : ItemsSet [] attrs) :
    rawAttributes (leftAttributes attrs) = rawAttributes attrs := by
  refine Std.ExtTreeMap.ext_getElem? (fun key => ?_)
  rw [getElem?_rawAttributes_left, getElem?_rawAttributes]
  cases last : attrs.reverse.find? (fun kv => kv.key = key) with
  | none => rfl
  | some kv =>
    rw [Option.map_some, Option.map_some,
      (valueToJson_left_iff kv.value).mpr (set key List.not_mem_nil kv last)]

/-- The keys that a span is given whether or not it has them. -/
def ownKeys : List String :=
  [Agent.usageKey, "evald.otel.span_id", Logs.ClaudeCode.callKey, Logs.ClaudeCode.callAnchor,
    Pricing.basisKey]

/-- A span has the copy of these attributes. -/
def Held (attrs : List KeyValue) (s : NormalizedSpan) : Prop :=
  ∀ key ∉ ownKeys, ∀ v, (rawAttributes attrs)[key]? = some v → s.rawAttributes[key]? = some v

/-- Both copies are the same only where no item is lost. -/
theorem ItemsSet.of_held {attrs : List KeyValue} {s : NormalizedSpan} (held : Held attrs s)
    (heldLeft : Held (leftAttributes attrs) s) : ItemsSet ownKeys attrs := by
  intro key other kv last
  have here := held key other (valueToJson kv.value) (by rw [getElem?_rawAttributes, last]; rfl)
  have there := heldLeft key other (valueToJson (leftOption kv.value))
    (by rw [getElem?_rawAttributes_left, last]; rfl)
  rw [here, Option.some_inj] at there
  exact (valueToJson_left_iff kv.value).mp there.symm

/-! ## What is done to a span afterwards -/

/-- What a span has of its attributes stays. -/
def Keeps (f : NormalizedSpan → NormalizedSpan) : Prop :=
  ∀ s, ∀ key ∉ ownKeys, ∀ v, s.rawAttributes[key]? = some v → (f s).rawAttributes[key]? = some v

theorem Keeps.comp {f g : NormalizedSpan → NormalizedSpan} (outer : Keeps g) (inner : Keeps f) :
    Keeps (fun s => g (f s)) :=
  fun s key other v there => outer (f s) key other v (inner s key other v there)

theorem Keeps.held {f : NormalizedSpan → NormalizedSpan} (keeps : Keeps f) {attrs : List KeyValue}
    {s : NormalizedSpan} (held : Held attrs s) : Held attrs (f s) :=
  fun key other v there => keeps s key other v (held key other v there)

theorem getElem?_insert_other {raw : Attributes} {key k : String} {v : Json}
    (there : raw[key]? = some v) (other : key ≠ k) (x : Json) :
    (raw.insert k x)[key]? = some v := by
  rw [getElem?_insert_if, if_neg other, there]

/-- A key that is missing is not one that is there. -/
theorem ne_of_missing {raw : Attributes} {key k : String} {v : Json}
    (there : raw[key]? = some v) (missing : ¬raw.contains k = true) : key ≠ k := by
  rintro rfl
  rw [Std.ExtTreeMap.contains_eq_isSome_getElem?, there] at missing
  exact missing rfl

theorem keeps_canonical (keys : List String) : Keeps (Agent.canonical keys) := by
  intro s key _ v there
  unfold Agent.canonical
  split
  · exact there
  · split_ifs with present
    · exact there
    · split
      · exact getElem?_insert_other there (ne_of_missing there present) _
      · exact there

theorem keeps_setAside (why : String) : Keeps (Agent.setAside why) := by
  intro s key other v there
  exact getElem?_insert_other there (fun same => other (by rw [same]; decide)) _

theorem keeps_normalize : Keeps Agent.normalize := by
  intro s key other v there
  unfold Agent.normalize
  dsimp only
  split
  · exact there
  · split_ifs
    · exact (keeps_canonical _).comp (keeps_canonical _) s key other v there
    · exact (keeps_setAside _) _ key other v
        ((keeps_canonical _).comp (keeps_canonical _) s key other v there)
    · exact (keeps_canonical _).comp (keeps_canonical _) s key other v there
    · exact there

section Fixes

variable (deps : Deps)

end Fixes

/-! ## The span of a record and the one of what is left of it -/

/-- The same span wherever no item is lost, and each with its own copy of the attributes. -/
structure Bears (attrs : List KeyValue) (s s' : NormalizedSpan) : Prop where
  same : ItemsSet [] attrs → s' = s
  held : Held attrs s
  heldLeft : Held (leftAttributes attrs) s'

namespace Bears

variable {attrs : List KeyValue} {s s' : NormalizedSpan}

theorem told (bears : Bears attrs s s') (same : s' = s) : ItemsSet ownKeys attrs :=
  .of_held bears.held (same ▸ bears.heldLeft)

theorem map {f : NormalizedSpan → NormalizedSpan} (bears : Bears attrs s s') (keeps : Keeps f) :
    Bears attrs (f s) (f s') where
  same set := by rw [bears.same set]
  held := keeps.held bears.held
  heldLeft := keeps.held bears.heldLeft

end Bears

theorem held_normalizeSpan (deps : Deps) (span : Span) (service name version : Option String) :
    Held span.attributes (normalizeSpan deps span service name version) :=
  keeps_normalize.held (fun _ _ _ there => there)

theorem bears_normalizeSpan (deps : Deps) (span : Span) (service name version : Option String) :
    Bears span.attributes (normalizeSpan deps span service name version)
      (normalizeSpan deps { span with attributes := leftAttributes span.attributes } service name
        version) where
  same set := by
    rw [normalizeSpan, normalizeSpan, readSpan_left, rawAttributes_left set]
    rfl
  held := held_normalizeSpan deps span service name version
  heldLeft := held_normalizeSpan deps
    { span with attributes := leftAttributes span.attributes } service name version

/-! ## Attributes that are added -/

/-- Scalars added under new keys. -/
def Adds (attrs attrs' : List KeyValue) : Prop :=
  ∃ extra, attrs' = attrs ++ extra ∧ ∀ kv ∈ extra, left kv = kv ∧ ∀ x ∈ attrs, x.key ≠ kv.key

namespace Adds

variable {attrs attrs' : List KeyValue}

theorem refl (attrs : List KeyValue) : Adds attrs attrs :=
  ⟨[], (List.append_nil attrs).symm, by simp⟩

theorem add (adds : Adds attrs attrs') {kv : KeyValue} (kept : left kv = kv) :
    Adds attrs (Logs.add attrs' kv) := by
  unfold Logs.add
  split_ifs with there
  · exact adds
  · obtain ⟨extra, rfl, each⟩ := adds
    refine ⟨extra ++ [kv], List.append_assoc _ _ _, ?_⟩
    rw [List.forall_mem_append, List.forall_mem_singleton]
    refine ⟨each, kept, fun x listed same => there ?_⟩
    exact List.any_eq_true.mpr ⟨x, List.mem_append_left _ listed, decide_eq_true same⟩

theorem addSome (adds : Adds attrs attrs') {value : Option KeyValue}
    (kept : ∀ kv ∈ value, left kv = kv) : Adds attrs (Logs.addSome attrs' value) := by
  cases value with
  | none => exact adds
  | some kv => exact adds.add (kept kv rfl)

/-- One count after the other. -/
theorem foldl {step : List KeyValue → String × Option Nat → List KeyValue}
    (each : ∀ {attrs'} count, Adds attrs attrs' → Adds attrs (step attrs' count))
    (adds : Adds attrs attrs') (counts : List (String × Option Nat)) :
    Adds attrs (counts.foldl step attrs') := by
  induction counts generalizing attrs' with
  | nil => exact adds
  | cons count counts inductionHypothesis => exact inductionHypothesis (each count adds)

theorem bothLeft (adds : Adds attrs attrs') :
    Adds (leftAttributes attrs) (leftAttributes attrs') := by
  obtain ⟨extra, rfl, each⟩ := adds
  refine ⟨extra, ?_, fun kv listed => ⟨(each kv listed).1, ?_⟩⟩
  · rw [leftAttributes, leftAttributes, List.map_append,
      List.map_congr_left (fun kv listed => (each kv listed).1), List.map_id']
  · rw [leftAttributes, List.forall_mem_map]
    exact (each kv listed).2

/-- What there is under a key stays. -/
theorem find?_reverse (adds : Adds attrs attrs') {key : String} {kv : KeyValue}
    (last : attrs.reverse.find? (fun kv => kv.key = key) = some kv) :
    attrs'.reverse.find? (fun kv => kv.key = key) = some kv := by
  obtain ⟨extra, rfl, each⟩ := adds
  have none : extra.reverse.find? (fun kv => kv.key = key) = none := by
    rw [List.find?_eq_none]
    intro x listed same
    have listed' := List.mem_of_find?_eq_some last
    refine (each x (List.mem_reverse.mp listed)).2 kv (List.mem_reverse.mp listed') ?_
    have found := List.find?_some last
    simp only [decide_eq_true_eq] at found same
    rw [found, same]
  rw [List.reverse_append, List.find?_append, none, last]
  rfl

theorem itemsSet (adds : Adds attrs attrs') {hidden : List String} (set : ItemsSet hidden attrs) :
    ItemsSet hidden attrs' := by
  intro key other kv last
  obtain ⟨extra, rfl, each⟩ := adds
  rw [List.reverse_append, List.find?_append] at last
  cases found : extra.reverse.find? (fun kv => kv.key = key) with
  | none =>
    rw [found] at last
    exact set key other kv last
  | some x =>
    rw [found, Option.some_or, Option.some_inj] at last
    subst last
    have kept := (each x (List.mem_reverse.mp (List.mem_of_find?_eq_some found))).1
    exact (valueToJson_left_iff x.value).mp (congrArg (fun kv => valueToJson kv.value) kept)

theorem held (adds : Adds attrs attrs') {s : NormalizedSpan} (held : Held attrs' s) :
    Held attrs s := by
  intro key other v there
  refine held key other v ?_
  rw [getElem?_rawAttributes, Option.map_eq_some_iff] at there ⊢
  obtain ⟨kv, last, copied⟩ := there
  exact ⟨kv, adds.find?_reverse last, copied⟩

/-- A span that bears more. -/
theorem bears (adds : Adds attrs attrs') {s s' : NormalizedSpan} (more : Bears attrs' s s') :
    Bears attrs s s' where
  same set := more.same (adds.itemsSet set)
  held := adds.held more.held
  heldLeft := adds.bothLeft.held more.heldLeft

end Adds

end Evald.JsonDoor
