import Evald.Blob

/-! # Offloading

Before a span is stored, each payload of it that is longer than the cap is moved to the
blob store and a reference stands in its place.  The dataset reader follows the
references (`offloadLargePayloads_read`).
-/

namespace Evald.Blob

open Evald.Lib

def inputKey : String := "evald.blob.input"

def outputKey : String := "evald.blob.output"

/-- How many characters of an offloaded text stay inline. -/
def previewChars : Nat := 256

/-- What is noted about an offloaded field. -/
def blobNote (ref text : String) : Json :=
  .obj [("bytes", .int (utf8 text).length),
    ("preview", .str (String.ofList (text.toList.take previewChars))), ("ref", .str ref)]

variable (hash : List UInt8 → UInt64)

/-- One field: what stands there, the attributes, the store and how many were moved. -/
def offloadField (disk : Disk) (field : Option String) (attrs : Attributes) (attrKey : String)
    (store : BlobStore) (cap : Nat) : Option String × Attributes × BlobStore × Nat :=
  match field with
  | none => (none, attrs, store, 0)
  | some val =>
    if (utf8 val).length ≤ cap then (some val, attrs, store, 0)
    else
      match store.put hash disk (utf8 val) with
      | (some ref, store) => (some ref, attrs.insert attrKey (blobNote ref val), store, 1)
      | (none, store) => (some val, attrs, store, 0)

/-- One attribute: what stands there, the store and whether it was moved. -/
def offloadAttribute (disk : Disk) (store : BlobStore) (cap : Nat) (key : String)
    (value : Json) : Json × BlobStore × Nat :=
  if startsWith key "evald.blob." then (value, store, 0)
  else
    match value with
    | .str s =>
      if cap < (utf8 s).length && !startsWith s refPrefix then
        match store.put hash disk (utf8 s) with
        | (some ref, store) => (.str ref, store, 1)
        | (none, store) => (.str s, store, 0)
      else (.str s, store, 0)
    | value => (value, store, 0)

/-- The attributes, one after the other in the order of their keys. -/
def offloadEach (disk : String → Disk) (cap : Nat) :
    List (String × Json) → Attributes × BlobStore × Nat → Attributes × BlobStore × Nat
  | [], done => done
  | (key, value) :: rest, (attrs, store, offloaded) =>
    let moved := offloadAttribute hash (disk key) store cap key value
    offloadEach disk cap rest (attrs.insert key moved.1, moved.2.1, offloaded + moved.2.2)

def offloadRawAttributes (disk : String → Disk) (attrs : Attributes) (store : BlobStore)
    (cap : Nat) : Attributes × BlobStore × Nat :=
  offloadEach hash disk cap attrs.toList (attrs, store, 0)

/-- The two fields, then the attributes. -/
def offloadSpan (disk : String → Disk) (cap : Nat) (span : NormalizedSpan) (store : BlobStore) :
    NormalizedSpan × BlobStore × Nat :=
  let input := offloadField hash (disk inputKey) span.inputValue span.rawAttributes inputKey
    store cap
  let output := offloadField hash (disk outputKey) span.outputValue input.2.1 outputKey
    input.2.2.1 cap
  let attrs := offloadRawAttributes hash disk output.2.1 output.2.2.1 cap
  ({ span with inputValue := input.1, outputValue := output.1, rawAttributes := attrs.1 },
    attrs.2.1, input.2.2.2 + output.2.2.2 + attrs.2.2)

def offloadSpans (cap : Nat) :
    List (NormalizedSpan × (String → Disk)) → BlobStore → List NormalizedSpan × BlobStore × Nat
  | [], store => ([], store, 0)
  | (span, disk) :: rest, store =>
    let first := offloadSpan hash disk cap span store
    let others := offloadSpans cap rest first.2.1
    (first.1 :: others.1, others.2.1, first.2.2 + others.2.2)

/-- Every span, each with the disk's answers to its calls.  A cap of zero disables it. -/
def offloadLargePayloads (spans : List (NormalizedSpan × (String → Disk))) (store : BlobStore)
    (cap : Nat) : List NormalizedSpan × BlobStore × Nat :=
  if cap = 0 then (spans.map Prod.fst, store, 0) else offloadSpans hash cap spans store

/-! ## The reader -/

def fromUtf8 (bytes : List UInt8) : Option String := String.fromUTF8? ⟨bytes.toArray⟩

/-- A reference is replaced by what it names, or by nothing; any other text stays. -/
def resolveBlobRef (store : BlobStore) : Option String → Option String
  | none => none
  | some v => if startsWith v refPrefix then (store.get v).bind fromUtf8 else some v

theorem fromUtf8_utf8 (s : String) : fromUtf8 (utf8 s) = some s := by
  have valid : s.toByteArray.IsValidUTF8 := s.isValidUTF8
  have bytes : (⟨(utf8 s).toArray⟩ : ByteArray) = s.toByteArray := by simp [utf8]
  rw [fromUtf8, bytes, String.fromUTF8?, dif_pos valid]
  rfl

/-! ## What stands in place of a text -/

/-- A reference that is followed to the text. -/
structure Reference (store : BlobStore) (text ref : String) : Prop where
  marked : startsWith ref refPrefix = true
  resolves : resolveBlobRef store (some ref) = some text

/-- A name of the content is a reference to the text. -/
theorem reference_of_names {hash : List UInt8 → UInt64} {store : BlobStore} {text ref : String}
    (named : BlobStore.Names hash store ref (utf8 text)) : Reference store text ref := by
  have marked : startsWith ref refPrefix = true := by
    obtain ⟨i, spelled, -⟩ := named
    rw [startsWith, spelled, String.toList_append, List.isPrefixOf_iff_prefix]
    exact List.prefix_append _ _
  refine ⟨marked, ?_⟩
  rw [resolveBlobRef, if_pos marked, named.get_eq, Option.bind_some, fromUtf8_utf8]

section

variable (refers : String → String → Prop) (cap : Nat) (good : Prop)

/-- A field and its note are as they were, which with `good` answers no long one is, or a
reference to the text stands in its place and is noted. -/
def FieldStored (before after : Option String) (noteBefore noteAfter : Option Json) : Prop :=
  (after = before ∧ noteAfter = noteBefore ∧
      ∀ text, before = some text → cap < (utf8 text).length → ¬ good) ∨
    ∃ text ref, before = some text ∧ after = some ref ∧ noteAfter = some (blobNote ref text) ∧
      cap < (utf8 text).length ∧ refers text ref

/-- The same of an attribute; a long text that is spelled like a reference is left out. -/
def AttributeStored (before after : Option Json) : Prop :=
  (after = before ∧ ∀ text, before = some (.str text) → cap < (utf8 text).length →
      startsWith text refPrefix = false → ¬ good) ∨
    ∃ text ref, before = some (.str text) ∧ after = some (.str ref) ∧
      startsWith text refPrefix = false ∧ cap < (utf8 text).length ∧ refers text ref

end

section

variable {refers refers' : String → String → Prop} {cap : Nat} {good good' : Prop}

theorem FieldStored.mono {before after : Option String} {noteBefore noteAfter : Option Json}
    (stored : FieldStored refers cap good before after noteBefore noteAfter)
    (more : ∀ text ref, refers text ref → refers' text ref) (fewer : good' → good) :
    FieldStored refers' cap good' before after noteBefore noteAfter := by
  cases stored with
  | inl inline =>
    obtain ⟨same, noted, short⟩ := inline
    exact .inl ⟨same, noted, fun text spelled long holds => short text spelled long (fewer holds)⟩
  | inr moved =>
    obtain ⟨text, ref, spelled, stands, noted, long, refer⟩ := moved
    exact .inr ⟨text, ref, spelled, stands, noted, long, more text ref refer⟩

theorem AttributeStored.mono {before after : Option Json}
    (stored : AttributeStored refers cap good before after)
    (more : ∀ text ref, refers text ref → refers' text ref) (fewer : good' → good) :
    AttributeStored refers' cap good' before after := by
  cases stored with
  | inl inline =>
    obtain ⟨same, short⟩ := inline
    exact .inl ⟨same, fun text spelled long plain holds =>
      short text spelled long plain (fewer holds)⟩
  | inr moved =>
    obtain ⟨text, ref, spelled, stands, plain, long, refer⟩ := moved
    exact .inr ⟨text, ref, spelled, stands, plain, long, more text ref refer⟩

end

/-- The reference is the name of the text. -/
def Named (hash : List UInt8 → UInt64) (later : BlobStore) (text ref : String) : Prop :=
  BlobStore.Names hash later ref (utf8 text)

variable {hash}

theorem put_ne_none {store : BlobStore} {disk : Disk} {bytes : List UInt8} {good : Prop}
    (fits : good → disk = {} ∧ store.files.size < 2 ^ 32)
    (failed : (store.put hash disk bytes).1 = none) : ¬ good := by
  intro holds
  obtain ⟨answers, room⟩ := fits holds
  have returned := BlobStore.put_returns hash bytes room
  rw [← answers, failed] at returned
  cases returned

theorem offloadField_store (disk : Disk) (field : Option String) (attrs : Attributes)
    (attrKey : String) (store : BlobStore) (cap : Nat) :
    Extends (offloadField hash disk field attrs attrKey store cap).2.2.1.fetch store.fetch ∧
      (offloadField hash disk field attrs attrKey store cap).2.2.1.files.size ≤
        store.files.size + 1 := by
  cases field with
  | none => exact ⟨Extends.refl _, Nat.le_succ _⟩
  | some val =>
    have grown := BlobStore.put_extends hash store disk (utf8 val)
    have size := BlobStore.size_put hash store disk (utf8 val)
    rw [offloadField]
    split
    · exact ⟨Extends.refl _, Nat.le_succ _⟩
    · split
      · next stored =>
        rw [stored] at grown size
        exact ⟨grown, size⟩
      · next stored =>
        rw [stored] at grown size
        exact ⟨grown, size⟩

theorem offloadField_field {disk : Disk} {field : Option String} {attrs : Attributes}
    {attrKey : String} {store later : BlobStore} {cap : Nat} {good : Prop}
    (fits : good → disk = {} ∧ store.files.size < 2 ^ 32)
    (grown : Extends later.fetch
      (offloadField hash disk field attrs attrKey store cap).2.2.1.fetch) :
    FieldStored (Named hash later) cap good field
      (offloadField hash disk field attrs attrKey store cap).1 attrs[attrKey]?
      (offloadField hash disk field attrs attrKey store cap).2.1[attrKey]? := by
  cases field with
  | none =>
    refine .inl ⟨rfl, rfl, fun text impossible => ?_⟩
    cases impossible
  | some val =>
    rw [offloadField] at grown ⊢
    split
    · next short =>
      refine .inl ⟨rfl, rfl, fun text same long => ?_⟩
      rw [← Option.some.inj same] at long
      omega
    · next long =>
      rw [if_neg long] at grown
      split
      · next ref store' stored =>
        rw [stored] at grown
        have named := BlobStore.put_names (congrArg Prod.fst stored)
        rw [stored] at named
        exact .inr ⟨val, ref, rfl, rfl, Std.ExtTreeMap.getElem?_insert_self, by omega,
          named.later grown⟩
      · next store' stored =>
        exact .inl ⟨rfl, rfl, fun _ _ _ => put_ne_none fits (congrArg Prod.fst stored)⟩

/-- Only the note is written among the attributes. -/
theorem offloadField_attrs (disk : Disk) (field : Option String) (attrs : Attributes)
    (attrKey : String) (store : BlobStore) (cap : Nat) :
    (∀ key, key ≠ attrKey →
      (offloadField hash disk field attrs attrKey store cap).2.1[key]? = attrs[key]?) ∧
      (offloadField hash disk field attrs attrKey store cap).2.1.size ≤ attrs.size + 1 := by
  cases field with
  | none => exact ⟨fun _ _ => rfl, Nat.le_succ _⟩
  | some val =>
    rw [offloadField]
    split
    · exact ⟨fun _ _ => rfl, Nat.le_succ _⟩
    · split
      · refine ⟨fun key other => ?_, Std.ExtTreeMap.size_insert_le⟩
        rw [getElem?_insert_if, if_neg other]
      · exact ⟨fun _ _ => rfl, Nat.le_succ _⟩

theorem offloadAttribute_store (hash : List UInt8 → UInt64) (disk : Disk) (store : BlobStore)
    (cap : Nat) (key : String) (value : Json) :
    Extends (offloadAttribute hash disk store cap key value).2.1.fetch store.fetch ∧
      (offloadAttribute hash disk store cap key value).2.1.files.size ≤ store.files.size + 1 := by
  unfold offloadAttribute
  split
  · exact ⟨Extends.refl _, Nat.le_succ _⟩
  · split
    · next s =>
      have grown := BlobStore.put_extends hash store disk (utf8 s)
      have size := BlobStore.size_put hash store disk (utf8 s)
      split
      · split
        · next stored =>
          rw [stored] at grown size
          exact ⟨grown, size⟩
        · next stored =>
          rw [stored] at grown size
          exact ⟨grown, size⟩
      · exact ⟨Extends.refl _, Nat.le_succ _⟩
    · exact ⟨Extends.refl _, Nat.le_succ _⟩

theorem offloadAttribute_value {disk : Disk} {store later : BlobStore} {cap : Nat} {key : String}
    {value : Json} {good : Prop} (fits : good → disk = {} ∧ store.files.size < 2 ^ 32)
    (grown : Extends later.fetch (offloadAttribute hash disk store cap key value).2.1.fetch)
    (foreign : startsWith key "evald.blob." = false) :
    AttributeStored (Named hash later) cap good (some value)
      (some (offloadAttribute hash disk store cap key value).1) := by
  have plain : ¬ startsWith key "evald.blob." = true := by simp [foreign]
  unfold offloadAttribute at grown ⊢
  rw [if_neg plain] at grown ⊢
  cases value with
  | str s =>
    simp only at grown ⊢
    split
    · next long =>
      rw [if_pos long] at grown
      rw [Bool.and_eq_true, decide_eq_true_eq, Bool.not_eq_true'] at long
      split
      · next ref store' stored =>
        rw [stored] at grown
        have named := BlobStore.put_names (congrArg Prod.fst stored)
        rw [stored] at named
        exact .inr ⟨s, ref, rfl, rfl, long.2, long.1, named.later grown⟩
      · next store' stored =>
        exact .inl ⟨rfl, fun _ _ _ _ => put_ne_none fits (congrArg Prod.fst stored)⟩
    · next inline =>
      refine .inl ⟨rfl, fun text same long unmarked => absurd ?_ inline⟩
      rw [Json.str.inj (Option.some.inj same), Bool.and_eq_true, decide_eq_true_eq, unmarked]
      exact ⟨long, rfl⟩
  | _ =>
    refine .inl ⟨rfl, fun text same => ?_⟩
    cases same

theorem offloadAttribute_own {disk : Disk} {store : BlobStore} {cap : Nat} {key : String}
    {value : Json} (own : startsWith key "evald.blob." = true) :
    (offloadAttribute hash disk store cap key value).1 = value := by
  unfold offloadAttribute
  rw [if_pos own]

theorem offloadEach_store (hash : List UInt8 → UInt64) (disk : String → Disk) (cap : Nat)
    (entries : List (String × Json)) (done : Attributes × BlobStore × Nat) :
    Extends (offloadEach hash disk cap entries done).2.1.fetch done.2.1.fetch ∧
      (offloadEach hash disk cap entries done).2.1.files.size ≤
        done.2.1.files.size + entries.length := by
  induction entries generalizing done with
  | nil => exact ⟨Extends.refl _, Nat.le_refl _⟩
  | cons entry entries inductionHypothesis =>
    obtain ⟨key, value⟩ := entry
    obtain ⟨attrs, store, offloaded⟩ := done
    rw [offloadEach, List.length_cons]
    obtain ⟨first, size⟩ := offloadAttribute_store hash (disk key) store cap key value
    obtain ⟨rest, size'⟩ := inductionHypothesis
      (attrs.insert key (offloadAttribute hash (disk key) store cap key value).1,
        (offloadAttribute hash (disk key) store cap key value).2.1,
        offloaded + (offloadAttribute hash (disk key) store cap key value).2.2)
    refine ⟨rest.trans first, ?_⟩
    show _ ≤ store.files.size + (entries.length + 1)
    simp only at size'
    omega

/-- A key that is not in the rest keeps what stands there. -/
theorem offloadEach_other (disk : String → Disk) (cap : Nat) {entries : List (String × Json)}
    (done : Attributes × BlobStore × Nat) {key : String} (other : key ∉ entries.map Prod.fst) :
    (offloadEach hash disk cap entries done).1[key]? = done.1[key]? := by
  induction entries generalizing done with
  | nil => rfl
  | cons entry entries inductionHypothesis =>
    rw [List.map_cons, List.mem_cons, not_or] at other
    rw [offloadEach, inductionHypothesis _ other.2, getElem?_insert_if, if_neg other.1]

theorem offloadEach_value {disk : String → Disk} {cap : Nat} {entries : List (String × Json)}
    {attrs : Attributes} {store later : BlobStore} {offloaded : Nat} {good : Prop} {key : String}
    {value : Json} (distinct : (entries.map Prod.fst).Nodup) (member : (key, value) ∈ entries)
    (fits : good → disk key = {} ∧ store.files.size + entries.length ≤ 2 ^ 32)
    (grown : Extends later.fetch
      (offloadEach hash disk cap entries (attrs, store, offloaded)).2.1.fetch) :
    (startsWith key "evald.blob." = false → AttributeStored (Named hash later) cap good (some value)
      (offloadEach hash disk cap entries (attrs, store, offloaded)).1[key]?) ∧
    (startsWith key "evald.blob." = true →
      (offloadEach hash disk cap entries (attrs, store, offloaded)).1[key]? = some value) := by
  -- on the entries that are left, with the store as the earlier ones made it
  induction entries generalizing attrs store offloaded with
  | nil => cases member
  | cons entry entries inductionHypothesis =>
    obtain ⟨first, content⟩ := entry
    rw [List.map_cons, List.nodup_cons] at distinct
    rw [List.length_cons] at fits
    rw [offloadEach] at grown ⊢
    have size := (offloadAttribute_store hash (disk first) store cap first content).2
    cases List.mem_cons.mp member with
    | inl here =>
      cases here
      -- the rest never meets this key again
      rw [offloadEach_other disk cap _ distinct.1, getElem?_insert_if, if_pos rfl]
      have reached := grown.trans (offloadEach_store hash disk cap entries _).1
      refine ⟨fun foreign => ?_, fun own => congrArg some (offloadAttribute_own own)⟩
      refine offloadAttribute_value (fun holds => ?_) reached foreign
      obtain ⟨answers, room⟩ := fits holds
      exact ⟨answers, by omega⟩
    | inr later =>
      refine inductionHypothesis distinct.2 later (fun holds => ?_) grown
      obtain ⟨answers, room⟩ := fits holds
      exact ⟨answers, by omega⟩

theorem offloadRawAttributes_store (hash : List UInt8 → UInt64) (disk : String → Disk)
    (attrs : Attributes) (store : BlobStore) (cap : Nat) :
    Extends (offloadRawAttributes hash disk attrs store cap).2.1.fetch store.fetch ∧
      (offloadRawAttributes hash disk attrs store cap).2.1.files.size ≤
        store.files.size + attrs.size := by
  rw [← Std.ExtTreeMap.length_toList (t := attrs)]
  exact offloadEach_store hash disk cap attrs.toList (attrs, store, 0)

theorem offloadRawAttributes_value {disk : String → Disk} {attrs : Attributes}
    {store later : BlobStore} {cap : Nat} {good : Prop} {key : String}
    (fits : good → disk key = {} ∧ store.files.size + attrs.size ≤ 2 ^ 32)
    (grown : Extends later.fetch (offloadRawAttributes hash disk attrs store cap).2.1.fetch) :
    (startsWith key "evald.blob." = false → AttributeStored (Named hash later) cap good attrs[key]?
      (offloadRawAttributes hash disk attrs store cap).1[key]?) ∧
    (startsWith key "evald.blob." = true →
      (offloadRawAttributes hash disk attrs store cap).1[key]? = attrs[key]?) := by
  cases content : attrs[key]? with
  | none =>
    have other : key ∉ attrs.toList.map Prod.fst := by
      intro member
      obtain ⟨entry, listed, named⟩ := List.mem_map.mp member
      have held := Std.ExtTreeMap.mem_toList_iff_getElem?_eq_some.mp listed
      rw [named, content] at held
      cases held
    have same : (offloadRawAttributes hash disk attrs store cap).1[key]? = none := by
      rw [offloadRawAttributes, offloadEach_other disk cap _ other, content]
    refine ⟨fun _ => .inl ⟨same, fun text impossible => ?_⟩, fun _ => same⟩
    cases impossible
  | some value =>
    have member := Std.ExtTreeMap.mem_toList_iff_getElem?_eq_some.mpr content
    have distinct : (attrs.toList.map Prod.fst).Nodup := by
      rw [Std.ExtTreeMap.map_fst_toList_eq_keys]
      exact Std.ExtTreeMap.nodup_keys
    refine offloadEach_value distinct member (fun holds => ?_) grown
    rw [Std.ExtTreeMap.length_toList]
    exact fits holds

/-! ## Whole spans -/

/-- What a span has become.  `room` says that names are left for all of its payloads. -/
structure SpanStored (refers : String → String → Prop) (cap : Nat) (disk : String → Disk)
    (room : Prop) (before after : NormalizedSpan) : Prop where
  input : FieldStored refers cap (disk inputKey = {} ∧ room) before.inputValue after.inputValue
    before.rawAttributes[inputKey]? after.rawAttributes[inputKey]?
  output : FieldStored refers cap (disk outputKey = {} ∧ room) before.outputValue
    after.outputValue before.rawAttributes[outputKey]? after.rawAttributes[outputKey]?
  attr : ∀ key, startsWith key "evald.blob." = false →
    AttributeStored refers cap (disk key = {} ∧ room) before.rawAttributes[key]?
      after.rawAttributes[key]?
  own : ∀ key, startsWith key "evald.blob." = true → key ≠ inputKey → key ≠ outputKey →
    after.rawAttributes[key]? = before.rawAttributes[key]?
  rest : { after with
    inputValue := before.inputValue
    outputValue := before.outputValue
    rawAttributes := before.rawAttributes } = before

theorem SpanStored.mono {refers refers' : String → String → Prop} {cap : Nat}
    {disk : String → Disk} {room room' : Prop} {before after : NormalizedSpan}
    (stored : SpanStored refers cap disk room before after)
    (more : ∀ text ref, refers text ref → refers' text ref) (fewer : room' → room) :
    SpanStored refers' cap disk room' before after where
  input := stored.input.mono more (And.imp_right fewer)
  output := stored.output.mono more (And.imp_right fewer)
  attr key foreign := (stored.attr key foreign).mono more (And.imp_right fewer)
  own := stored.own
  rest := stored.rest

theorem offloadSpan_store (hash : List UInt8 → UInt64) (disk : String → Disk) (cap : Nat)
    (span : NormalizedSpan) (store : BlobStore) :
    Extends (offloadSpan hash disk cap span store).2.1.fetch store.fetch ∧
      (offloadSpan hash disk cap span store).2.1.files.size ≤
        store.files.size + (span.rawAttributes.size + 4) := by
  let input := offloadField hash (disk inputKey) span.inputValue span.rawAttributes inputKey
    store cap
  let output := offloadField hash (disk outputKey) span.outputValue input.2.1 outputKey
    input.2.2.1 cap
  have first : Extends input.2.2.1.fetch store.fetch ∧
      input.2.2.1.files.size ≤ store.files.size + 1 := offloadField_store ..
  have second : Extends output.2.2.1.fetch input.2.2.1.fetch ∧
      output.2.2.1.files.size ≤ input.2.2.1.files.size + 1 := offloadField_store ..
  have noted : input.2.1.size ≤ span.rawAttributes.size + 1 := (offloadField_attrs ..).2
  have noted' : output.2.1.size ≤ input.2.1.size + 1 := (offloadField_attrs ..).2
  have third := offloadRawAttributes_store hash disk output.2.1 output.2.2.1 cap
  refine ⟨third.1.trans (second.1.trans first.1), ?_⟩
  have size : (offloadSpan hash disk cap span store).2.1.files.size ≤
      output.2.2.1.files.size + output.2.1.size := third.2
  omega

theorem offloadSpan_stored {disk : String → Disk} {cap : Nat} {span : NormalizedSpan}
    {store later : BlobStore} {room : Prop}
    (fits : room → store.files.size + (span.rawAttributes.size + 4) ≤ 2 ^ 32)
    (grown : Extends later.fetch (offloadSpan hash disk cap span store).2.1.fetch) :
    SpanStored (Named hash later) cap disk room span (offloadSpan hash disk cap span store).1 := by
  let input := offloadField hash (disk inputKey) span.inputValue span.rawAttributes inputKey
    store cap
  let output := offloadField hash (disk outputKey) span.outputValue input.2.1 outputKey
    input.2.2.1 cap
  have first : Extends input.2.2.1.fetch store.fetch ∧
      input.2.2.1.files.size ≤ store.files.size + 1 := offloadField_store ..
  have second : Extends output.2.2.1.fetch input.2.2.1.fetch ∧
      output.2.2.1.files.size ≤ input.2.2.1.files.size + 1 := offloadField_store ..
  have noted : (∀ key, key ≠ inputKey → input.2.1[key]? = span.rawAttributes[key]?) ∧
      input.2.1.size ≤ span.rawAttributes.size + 1 := offloadField_attrs ..
  have noted' : (∀ key, key ≠ outputKey → output.2.1[key]? = input.2.1[key]?) ∧
      output.2.1.size ≤ input.2.1.size + 1 := offloadField_attrs ..
  -- the references are read against a later store, which has all of these
  have afterOutput : Extends later.fetch output.2.2.1.fetch :=
    grown.trans (offloadRawAttributes_store ..).1
  -- neither note is under the key of any other attribute
  have before (key : String) (notInput : key ≠ inputKey) (notOutput : key ≠ outputKey) :
      output.2.1[key]? = span.rawAttributes[key]? := by
    rw [noted'.1 key notOutput, noted.1 key notInput]
  have inputRoom (holds : room) : store.files.size < 2 ^ 32 := by
    have := fits holds
    omega
  have outputRoom (holds : room) : input.2.2.1.files.size < 2 ^ 32 := by
    have := fits holds
    omega
  have attrsRoom (holds : room) : output.2.2.1.files.size + output.2.1.size ≤ 2 ^ 32 := by
    have := fits holds
    omega
  have nothing (key : String) (impossible : False) : disk key = {} ∧
      output.2.2.1.files.size + output.2.1.size ≤ 2 ^ 32 := impossible.elim
  have notes (key : String) (own : startsWith key "evald.blob." = true) :
      (offloadSpan hash disk cap span store).1.rawAttributes[key]? = output.2.1[key]? :=
    (offloadRawAttributes_value (nothing key) grown).2 own
  have inputField : FieldStored (Named hash later) cap (disk inputKey = {} ∧ room)
      span.inputValue input.1 span.rawAttributes[inputKey]? input.2.1[inputKey]? :=
    offloadField_field (fun holds => ⟨holds.1, inputRoom holds.2⟩) (afterOutput.trans second.1)
  have outputField : FieldStored (Named hash later) cap (disk outputKey = {} ∧ room)
      span.outputValue output.1 input.2.1[outputKey]? output.2.1[outputKey]? :=
    offloadField_field (fun holds => ⟨holds.1, outputRoom holds.2⟩) afterOutput
  exact {
    input := by
      rw [notes inputKey rfl, noted'.1 inputKey (by decide)]
      exact inputField
    output := by
      rw [notes outputKey rfl, ← noted.1 outputKey (by decide)]
      exact outputField
    attr := by
      intro key foreign
      rw [← before key (fun same => by rw [same] at foreign; cases foreign)
        (fun same => by rw [same] at foreign; cases foreign)]
      exact (offloadRawAttributes_value (fun holds => ⟨holds.1, attrsRoom holds.2⟩) grown).1 foreign
    own := by
      intro key own notInput notOutput
      rw [← before key notInput notOutput]
      exact notes key own
    rest := rfl }

/-! ## All spans -/

/-- Names are left for every payload. -/
def HasRoom (store : BlobStore) (spans : List (NormalizedSpan × (String → Disk))) : Prop :=
  store.files.size + (spans.map (fun s => s.1.rawAttributes.size + 4)).sum ≤ 2 ^ 32

theorem offloadSpans_extends (cap : Nat) (spans : List (NormalizedSpan × (String → Disk)))
    (store : BlobStore) :
    Extends (offloadSpans hash cap spans store).2.1.fetch store.fetch := by
  induction spans generalizing store with
  | nil => exact Extends.refl _
  | cons given spans inductionHypothesis =>
    exact (inductionHypothesis _).trans (offloadSpan_store hash given.2 cap given.1 store).1

theorem offloadSpans_size (cap : Nat) (spans : List (NormalizedSpan × (String → Disk)))
    (store : BlobStore) :
    (offloadSpans hash cap spans store).2.1.files.size ≤
      store.files.size + (spans.map (fun s => s.1.rawAttributes.size + 4)).sum := by
  induction spans generalizing store with
  | nil => exact Nat.le_refl _
  | cons given spans inductionHypothesis =>
    have first := (offloadSpan_store hash given.2 cap given.1 store).2
    have rest := inductionHypothesis (offloadSpan hash given.2 cap given.1 store).2.1
    simp only [offloadSpans, List.map_cons, List.sum_cons]
    omega

theorem offloadSpans_stored {cap : Nat} {spans : List (NormalizedSpan × (String → Disk))}
    {store later : BlobStore} (room : Prop) {i : Nat} {before after : NormalizedSpan}
    {disk : String → Disk} (fits : room → HasRoom store spans)
    (given : spans[i]? = some (before, disk))
    (result : (offloadSpans hash cap spans store).1[i]? = some after)
    (grown : Extends later.fetch (offloadSpans hash cap spans store).2.1.fetch) :
    SpanStored (Named hash later) cap disk room before after := by
  induction spans generalizing store i with
  | nil => cases given
  | cons first spans inductionHypothesis =>
    obtain ⟨span, answers⟩ := first
    have size := (offloadSpan_store hash answers cap span store).2
    simp only [HasRoom, List.map_cons, List.sum_cons] at fits
    cases i with
    | zero =>
      cases given
      rw [← Option.some.inj result]
      refine offloadSpan_stored (fun holds => ?_) (grown.trans (offloadSpans_extends cap spans _))
      have := fits holds
      omega
    | succ i =>
      refine inductionHypothesis (fun holds => ?_) given result grown
      have := fits holds
      rw [HasRoom]
      omega

/-- The store grows, by no more than the payloads. -/
theorem offloadLargePayloads_store (hash : List UInt8 → UInt64) (cap : Nat)
    (spans : List (NormalizedSpan × (String → Disk))) (store : BlobStore) :
    Extends (offloadLargePayloads hash spans store cap).2.1.fetch store.fetch ∧
      (offloadLargePayloads hash spans store cap).2.1.files.size ≤
        store.files.size + (spans.map (fun s => s.1.rawAttributes.size + 4)).sum := by
  rw [offloadLargePayloads]
  split
  · exact ⟨Extends.refl _, Nat.le_add_right _ _⟩
  · exact ⟨offloadSpans_extends cap spans store, offloadSpans_size cap spans store⟩

theorem length_offloadLargePayloads (hash : List UInt8 → UInt64) (cap : Nat)
    (spans : List (NormalizedSpan × (String → Disk))) (store : BlobStore) :
    (offloadLargePayloads hash spans store cap).1.length = spans.length := by
  have each : (offloadSpans hash cap spans store).1.length = spans.length := by
    induction spans generalizing store with
    | nil => rfl
    | cons given spans inductionHypothesis =>
      rw [offloadSpans, List.length_cons, List.length_cons, inductionHypothesis]
  unfold offloadLargePayloads
  split
  · exact List.length_map _
  · exact each

/-- What a reader of a field is owed. -/
structure FieldRead (later : BlobStore) (cap : Nat) (good : Prop)
    (before after : Option String) : Prop where
  read : (after ≠ before ∨ ∀ text, before = some text → startsWith text refPrefix = false) →
    resolveBlobRef later after = before
  moved : ∀ text, before = some text → cap ≠ 0 → cap < (utf8 text).length → good →
    ∃ ref, after = some ref ∧ Reference later text ref
  disabled : cap = 0 → after = before

/-- A field that is as it was is read back unless it is spelled like a reference. -/
theorem resolveBlobRef_inline {later : BlobStore} {field : Option String}
    (plain : ∀ text, field = some text → startsWith text refPrefix = false) :
    resolveBlobRef later field = field := by
  cases field with
  | none => rfl
  | some text => simp [resolveBlobRef, plain text rfl]

theorem FieldStored.fieldRead {later : BlobStore} {cap : Nat} {good : Prop}
    {before after : Option String} {noteBefore noteAfter : Option Json}
    (stored : FieldStored (Reference later) cap good before after noteBefore noteAfter)
    (enabled : cap ≠ 0) : FieldRead later cap good before after := by
  cases stored with
  | inl inline =>
    obtain ⟨same, -, short⟩ := inline
    refine ⟨fun seen => ?_, fun text spelled _ long holds => ?_, fun _ => same⟩
    · cases seen with
      | inl changed => exact absurd same changed
      | inr plain =>
        rw [same]
        exact resolveBlobRef_inline plain
    · exact absurd holds (short text spelled long)
  | inr moved =>
    obtain ⟨text, ref, spelled, stands, -, -, reference⟩ := moved
    rw [spelled, stands]
    refine ⟨fun _ => reference.resolves, fun other same _ _ _ => ?_, fun off => absurd off enabled⟩
    rw [← Option.some.inj same]
    exact ⟨ref, rfl, reference⟩

/-- A reader of the store, then or later, gets back every field that was moved, however it
is spelled, and every field that is not spelled like a reference.  A field longer than the
cap is moved when its write goes through, and so is such an attribute, other than the notes
and the texts spelled like a reference.  Nothing else of the span changes. -/
theorem offloadLargePayloads_read (hash : List UInt8 → UInt64) (cap : Nat)
    (spans : List (NormalizedSpan × (String → Disk))) (store later : BlobStore) {i : Nat}
    {before after : NormalizedSpan} {disk : String → Disk}
    (given : spans[i]? = some (before, disk))
    (result : (offloadLargePayloads hash spans store cap).1[i]? = some after)
    (grown : Extends later.fetch (offloadLargePayloads hash spans store cap).2.1.fetch) :
    FieldRead later cap (disk inputKey = {} ∧ HasRoom store spans) before.inputValue
      after.inputValue ∧
    FieldRead later cap (disk outputKey = {} ∧ HasRoom store spans) before.outputValue
      after.outputValue ∧
    (∀ key text, before.rawAttributes[key]? = some (.str text) → cap ≠ 0 →
      cap < (utf8 text).length → startsWith key "evald.blob." = false →
      startsWith text refPrefix = false → disk key = {} → HasRoom store spans →
      ∃ ref, after.rawAttributes[key]? = some (.str ref) ∧ Reference later text ref) ∧
    { after with
      inputValue := before.inputValue
      outputValue := before.outputValue
      rawAttributes := before.rawAttributes } = before := by
  -- with offloading off nothing is marked, so nothing is followed
  by_cases off : cap = 0
  · rw [offloadLargePayloads, if_pos off, List.getElem?_map, given] at result
    cases result
    have kept (good : Prop) (field : Option String) : FieldRead later cap good field field := {
      read := by
        intro seen
        cases seen with
        | inl changed => exact absurd rfl changed
        | inr plain => exact resolveBlobRef_inline plain
      moved := fun _ _ enabled => absurd off enabled
      disabled := fun _ => rfl }
    exact ⟨kept _ _, kept _ _, fun _ _ _ enabled => absurd off enabled, rfl⟩
  · rw [offloadLargePayloads, if_neg off] at result grown
    have named := offloadSpans_stored (HasRoom store spans) (fun holds => holds) given
      result grown
    have stored : SpanStored (Reference later) cap disk (HasRoom store spans) before after :=
      named.mono (fun _ _ refer => reference_of_names refer) (fun holds => holds)
    refine ⟨stored.input.fieldRead off, stored.output.fieldRead off, ?_, stored.rest⟩
    intro key text spelled _ long foreign plain answers room
    -- a long text that is still there would be against the disk and the room
    cases stored.attr key foreign with
    | inl inline => exact absurd ⟨answers, room⟩ (inline.2 text spelled long plain)
    | inr moved =>
      obtain ⟨other, ref, same, stands, -, -, reference⟩ := moved
      rw [spelled] at same
      cases same
      exact ⟨ref, stands, reference⟩

def longText : String := "evald-blob:but really a payload"

/-- A long text that is spelled like a reference. -/
def spelledSpan : NormalizedSpan where
  traceId := "01"
  spanId := "02"
  startUnixNano := 0
  inputValue := some longText
  rawAttributes := (∅ : Attributes).insert "input.value" (.str "a payload of some length")

theorem offloadLargePayloads_read_spelled :
    let done := offloadLargePayloads (fun _ => 0) [(spelledSpan, fun _ => {})] {} 16
    ∃ after, done.1[0]? = some after ∧
      resolveBlobRef done.2.1 after.inputValue = some longText ∧
      ∃ ref, after.rawAttributes["input.value"]? = some (.str ref) ∧
        Reference done.2.1 "a payload of some length" ref := by
  have room : HasRoom {} [(spelledSpan, fun _ => ({} : Disk))] := by
    rw [HasRoom]
    decide
  have some : ((offloadLargePayloads (fun _ => 0) [(spelledSpan, fun _ => {})] {} 16).1[0]?).isSome
      = true := by decide
  obtain ⟨after, result⟩ := Option.isSome_iff_exists.mp some
  obtain ⟨input, -, attr, -⟩ := offloadLargePayloads_read (fun _ => 0) 16
    [(spelledSpan, fun _ => {})] {} _ rfl result (Extends.refl _)
  obtain ⟨ref, stands, reference⟩ := input.moved longText rfl (by decide) (by decide)
    ⟨rfl, room⟩
  refine ⟨after, result, ?_, attr "input.value" "a payload of some length"
    Std.ExtTreeMap.getElem?_insert_self (by decide) (by decide) (by decide)
    (by decide) rfl room⟩
  rw [stands]
  exact reference.resolves

/-- With a cap of zero nothing is moved; an attribute under the notes' prefix stays; and a
short text that is spelled like a reference is read as one, and lost. -/
theorem offloadLargePayloads_unread :
    let keep (key : String) : NormalizedSpan := { spelledSpan with
      rawAttributes := (∅ : Attributes).insert key (.str "a payload of some length") }
    let done (key : String) (cap : Nat) :=
      offloadLargePayloads (fun _ => 0) [(keep key, fun _ => {})] {} cap
    ((done "input.value" 0).1.map (fun s => (s.rawAttributes["input.value"]?.bind Json.asStr)) =
      [some "a payload of some length"]) ∧
    ((done "evald.blob.x" 16).1.map (fun s => (s.rawAttributes["evald.blob.x"]?.bind Json.asStr)) =
      [some "a payload of some length"]) ∧
    ((done "input.value" 64).1.map (fun s => resolveBlobRef (done "input.value" 64).2.1
      s.inputValue) = [none]) := by
  decide

end Evald.Blob
