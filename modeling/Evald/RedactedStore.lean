import Evald.Calls
import Evald.Offload
import Evald.Redact
import Evald.Lib.Tally

/-! # Redaction before storage

Every span is redacted on its way to the store, and only then are its long payloads moved to
the blob store.  Whatever the redactor makes of a text, over any sequence of ingests each
field of a span is stored as the redactor left it or behind a reference to that, no other text
reaches a blob, and the counters add up to the hits (`stored_redacted`).  What the doors do to a
span before it is appended is this redaction and this offloading (`prepareForStorage_prepare`).
-/

namespace Evald.Redact

open Evald.Lib Evald.Blob

/-! ## Redacting a span -/

/-- Hits by rule, as a `BTreeMap` counts them. -/
abbrev Hits := Std.ExtTreeMap Nat Nat

/-- `*total.entry(k).or_default() += v` for each count. -/
def addHits (total : Hits) (counts : List (Nat × Nat)) : Hits :=
  counts.foldl (fun total c => total.insert c.1 (total.getD c.1 0 + c.2)) total

section

-- `Redactor::scrub`: the rewritten text with the hits of each rule, or nothing
variable (scrub : String → Option (String × List (Nat × Nat)))

/-- What is left of a text. -/
def left (text : String) : String := ((scrub text).map Prod.fst).getD text

/-- The hits in a text. -/
def hits (text : String) : List (Nat × Nat) := ((scrub text).map Prod.snd).getD []

mutual

/-- Every string of a value; the keys of an object are left alone. -/
def scrubJson : Json → Json × List (Nat × Nat)
  | .str s => (.str (left scrub s), (addHits ∅ (hits scrub s)).toList)
  | .arr items => (.arr (scrubItems items ∅).1, (scrubItems items ∅).2.toList)
  | .obj members => (.obj (scrubMembers members ∅).1, (scrubMembers members ∅).2.toList)
  | other => (other, [])

def scrubItems : List Json → Hits → List Json × Hits
  | [], total => ([], total)
  | item :: rest, total =>
    let first := scrubJson item
    let others := scrubItems rest (addHits total first.2)
    (first.1 :: others.1, others.2)

def scrubMembers : List (String × Json) → Hits → List (String × Json) × Hits
  | [], total => ([], total)
  | (key, value) :: rest, total =>
    let first := scrubJson value
    let others := scrubMembers rest (addHits total first.2)
    ((key, first.1) :: others.1, others.2)

end

/-- The attributes, in the order of their keys. -/
def scrubEach : List (String × Json) → Attributes × Hits → Attributes × Hits
  | [], done => done
  | (key, value) :: rest, (attrs, total) =>
    let first := scrubJson scrub value
    scrubEach rest (attrs.insert key first.1, addHits total first.2)

/-- The two payloads and the attributes of a span. -/
def scrubSpan (span : NormalizedSpan) : NormalizedSpan × List (Nat × Nat) :=
  let payload (field : Option String) (total : Hits) : Option String × Hits :=
    (field.map (left scrub), (field.map (fun text => addHits total (hits scrub text))).getD total)
  let input := payload span.inputValue ∅
  let output := payload span.outputValue input.2
  let attrs := scrubEach scrub span.rawAttributes.toList (span.rawAttributes, output.2)
  ({ span with inputValue := input.1, outputValue := output.1, rawAttributes := attrs.1 },
    attrs.2.toList)

end

/-! ## Storing -/

/-- One counter for each rule of the policy, as `fetch_add` leaves it. -/
def countHits (counters : List Nat) (counts : List (Nat × Nat)) : List Nat :=
  counts.foldl (fun counters c => counters.modify c.1 (· + c.2)) counters

/-- What ingest has handed to the log, the blob store and the counters. -/
structure Stored where
  spans : List NormalizedSpan := []
  blobs : BlobStore := {}
  counters : List Nat

section

variable (redactor : Option (String → Option (String × List (Nat × Nat))))
  (hash : List UInt8 → UInt64) (cap : Nat)

/-- `prepare_for_storage`: redact, then offload.  Each span comes with the disk's answers to
its calls. -/
def prepareForStorage (spans : List (NormalizedSpan × (String → Disk))) (blobs : BlobStore)
    (counters : List Nat) : (List NormalizedSpan × BlobStore × Nat) × List Nat :=
  match redactor with
  | none => (offloadLargePayloads hash spans blobs cap, counters)
  | some scrub =>
    (offloadLargePayloads hash (spans.map (fun s => ((scrubSpan scrub s.1).1, s.2))) blobs cap,
      spans.foldl (fun counters s => countHits counters (scrubSpan scrub s.1).2) counters)

/-- One batch on its way to the store. -/
def ingest (stored : Stored) (spans : List (NormalizedSpan × (String → Disk))) : Stored :=
  let prepared := prepareForStorage redactor hash cap spans stored.blobs stored.counters
  { spans := stored.spans ++ prepared.1.1
    blobs := prepared.1.2.1
    counters := prepared.2 }

end

/-! ## The texts of a span -/

mutual

/-- The strings in a value, at any depth. -/
def texts : Json → List String
  | .str s => [s]
  | .arr items => itemTexts items
  | .obj members => memberTexts members
  | _ => []

def itemTexts : List Json → List String
  | [] => []
  | item :: rest => texts item ++ itemTexts rest

def memberTexts : List (String × Json) → List String
  | [] => []
  | (_, value) :: rest => texts value ++ memberTexts rest

end

def attrTexts (attrs : Attributes) : List String := attrs.toList.flatMap (fun e => texts e.2)

/-- The texts of a span that are scanned. -/
def scanned (span : NormalizedSpan) : List String :=
  span.inputValue.toList ++ span.outputValue.toList ++ attrTexts span.rawAttributes

/-- How often rule `i` is among some counts. -/
def hitsOf (i : Nat) (counts : List (Nat × Nat)) : Nat :=
  (counts.map (fun c => if c.1 = i then c.2 else 0)).sum

/-! ## Hits add up -/

theorem hitsOf_append (i : Nat) (counts counts' : List (Nat × Nat)) :
    hitsOf i (counts ++ counts') = hitsOf i counts + hitsOf i counts' := by
  simp [hitsOf]

theorem getD_addHits (i : Nat) (total : Hits) (counts : List (Nat × Nat)) :
    (addHits total counts).getD i 0 = total.getD i 0 + hitsOf i counts := by
  have adds : ∀ (total : Hits) (c : Nat × Nat),
      (total.insert c.1 (total.getD c.1 0 + c.2)).getD i 0 =
        total.getD i 0 + if c.1 = i then c.2 else 0 := by
    intro total c
    rw [Std.ExtTreeMap.getD_insert]
    simp only [Std.LawfulEqOrd.compare_eq_iff_eq]
    by_cases here : c.1 = i <;> simp [here]
  exact @foldl_eq_sum Nat _ Hits (Nat × Nat)
    (fun total c => total.insert c.1 (total.getD c.1 0 + c.2)) (fun total => total.getD i 0)
    (fun c => if c.1 = i then c.2 else 0) adds counts total

theorem hitsOf_of_not_mem {i : Nat} {counts : List (Nat × Nat)}
    (absent : i ∉ counts.map Prod.fst) : hitsOf i counts = 0 := by
  apply List.sum_eq_zero
  intro n member
  obtain ⟨c, listed, rfl⟩ := List.mem_map.mp member
  rw [if_neg]
  exact fun same => absent (same ▸ List.mem_map_of_mem listed)

theorem hitsOf_of_mem {i n : Nat} {counts : List (Nat × Nat)}
    (distinct : (counts.map Prod.fst).Nodup) (listed : (i, n) ∈ counts) :
    hitsOf i counts = n := by
  induction counts with
  | nil => cases listed
  | cons c counts inductionHypothesis =>
    obtain ⟨alone, distinct⟩ := List.nodup_cons.mp distinct
    rw [← List.singleton_append, hitsOf_append]
    cases listed with
    | head =>
      rw [hitsOf_of_not_mem alone]
      simp [hitsOf]
    | tail _ later =>
      have other : c.1 ≠ i := fun same => alone (same ▸ List.mem_map_of_mem later)
      rw [inductionHypothesis distinct later]
      simp [hitsOf, other]

theorem hitsOf_toList (i : Nat) (total : Hits) : hitsOf i total.toList = total.getD i 0 := by
  have keys : total.toList.map Prod.fst = total.keys := Std.ExtTreeMap.map_fst_toList_eq_keys
  rw [Std.ExtTreeMap.getD_eq_getD_getElem?]
  cases found : total[i]? with
  | none =>
    apply hitsOf_of_not_mem
    rw [keys, Std.ExtTreeMap.mem_keys, ← Std.ExtTreeMap.isSome_getElem?_iff_mem, found]
    exact Bool.false_ne_true
  | some n =>
    apply hitsOf_of_mem
    · rw [keys]
      exact Std.ExtTreeMap.nodup_keys
    · exact Std.ExtTreeMap.mem_toList_iff_getElem?_eq_some.mpr found

theorem getElem?_countHits (i : Nat) (counters : List Nat) (counts : List (Nat × Nat)) :
    (countHits counters counts)[i]? = counters[i]?.map (· + hitsOf i counts) := by
  induction counts generalizing counters with
  | nil => simp [countHits, hitsOf]
  | cons c counts inductionHypothesis =>
    have next : countHits counters (c :: counts) =
        countHits (counters.modify c.1 (· + c.2)) counts := rfl
    rw [next, inductionHypothesis, List.getElem?_modify, ← List.singleton_append, hitsOf_append]
    by_cases here : c.1 = i
    · cases counters[i]? <;> simp [here, hitsOf, Nat.add_assoc]
    · cases counters[i]? <;> simp [here, hitsOf]

/-! ## What redaction leaves of a span -/

section

variable (scrub : String → Option (String × List (Nat × Nat)))

/-- The hits of rule `i` in some texts. -/
def hitsIn (i : Nat) (texts : List String) : Nat :=
  (texts.map (fun text => hitsOf i (hits scrub text))).sum

theorem hitsIn_append (i : Nat) (xs ys : List String) :
    hitsIn scrub i (xs ++ ys) = hitsIn scrub i xs + hitsIn scrub i ys := by
  simp [hitsIn]

mutual

/-- The value as every door scrubs it. -/
theorem scrubJson_fst (value : Json) :
    (scrubJson scrub value).1 = Preparation.scrubJson (left scrub) value := by
  cases value with
  | arr items => exact congrArg Json.arr (scrubItems_fst items ∅)
  | obj members => exact congrArg Json.obj (scrubMembers_fst members ∅)
  | _ => rfl

theorem scrubItems_fst (items : List Json) (total : Hits) :
    (scrubItems scrub items total).1 = Preparation.scrubItems (left scrub) items := by
  cases items with
  | nil => rfl
  | cons item rest =>
    rw [scrubItems, Preparation.scrubItems, scrubJson_fst item, scrubItems_fst rest]

theorem scrubMembers_fst (members : List (String × Json)) (total : Hits) :
    (scrubMembers scrub members total).1 = Preparation.scrubMembers (left scrub) members := by
  cases members with
  | nil => rfl
  | cons member rest =>
    obtain ⟨key, value⟩ := member
    rw [scrubMembers, Preparation.scrubMembers, scrubJson_fst value, scrubMembers_fst rest]

end

mutual

theorem hitsOf_scrubJson (i : Nat) (value : Json) :
    hitsOf i (scrubJson scrub value).2 = hitsIn scrub i (texts value) := by
  cases value with
  | str s =>
    rw [scrubJson, hitsOf_toList, getD_addHits, Std.ExtTreeMap.getD_empty, Nat.zero_add]
    simp [texts, hitsIn]
  | arr items =>
    rw [scrubJson, hitsOf_toList, getD_scrubItems i items, Std.ExtTreeMap.getD_empty, Nat.zero_add,
      texts]
  | obj members =>
    rw [scrubJson, hitsOf_toList, getD_scrubMembers i members, Std.ExtTreeMap.getD_empty,
      Nat.zero_add, texts]
  | _ => rfl

theorem getD_scrubItems (i : Nat) (items : List Json) (total : Hits) :
    (scrubItems scrub items total).2.getD i 0 =
      total.getD i 0 + hitsIn scrub i (itemTexts items) := by
  cases items with
  | nil => rfl
  | cons item rest =>
    rw [scrubItems, itemTexts, hitsIn_append, getD_scrubItems i rest, getD_addHits,
      hitsOf_scrubJson i item, Nat.add_assoc]

theorem getD_scrubMembers (i : Nat) (members : List (String × Json)) (total : Hits) :
    (scrubMembers scrub members total).2.getD i 0 =
      total.getD i 0 + hitsIn scrub i (memberTexts members) := by
  cases members with
  | nil => rfl
  | cons member rest =>
    obtain ⟨key, value⟩ := member
    rw [scrubMembers, memberTexts, hitsIn_append, getD_scrubMembers i rest, getD_addHits,
      hitsOf_scrubJson i value, Nat.add_assoc]

end

/-! ## What redaction leaves of the attributes -/

/-- A key that is not in the rest keeps what stands there. -/
theorem scrubEach_other {entries : List (String × Json)} (done : Attributes × Hits) {key : String}
    (other : key ∉ entries.map Prod.fst) :
    (scrubEach scrub entries done).1[key]? = done.1[key]? := by
  induction entries generalizing done with
  | nil => rfl
  | cons entry entries inductionHypothesis =>
    rw [List.map_cons, List.mem_cons, not_or] at other
    rw [scrubEach, inductionHypothesis _ other.2, getElem?_insert_if, if_neg other.1]

theorem scrubEach_value {entries : List (String × Json)} (done : Attributes × Hits) {key : String}
    {value : Json} (distinct : (entries.map Prod.fst).Nodup) (member : (key, value) ∈ entries) :
    (scrubEach scrub entries done).1[key]? = some (scrubJson scrub value).1 := by
  induction entries generalizing done with
  | nil => cases member
  | cons entry entries inductionHypothesis =>
    rw [List.map_cons, List.nodup_cons] at distinct
    rw [scrubEach]
    cases List.mem_cons.mp member with
    | inl here =>
      cases here
      rw [scrubEach_other scrub _ distinct.1, getElem?_insert_if, if_pos rfl]
    | inr later => exact inductionHypothesis _ distinct.2 later

theorem getD_scrubEach (i : Nat) (entries : List (String × Json)) (done : Attributes × Hits) :
    (scrubEach scrub entries done).2.getD i 0 =
      done.2.getD i 0 + hitsIn scrub i (entries.flatMap (fun e => texts e.2)) := by
  induction entries generalizing done with
  | nil => rfl
  | cons entry entries inductionHypothesis =>
    rw [scrubEach, inductionHypothesis, getD_addHits, hitsOf_scrubJson, List.flatMap_cons,
      hitsIn_append, Nat.add_assoc]

/-- Every attribute is redacted where it stands. -/
theorem scrubEach_fst (attrs : Attributes) (total : Hits) :
    (scrubEach scrub attrs.toList (attrs, total)).1 =
      attrs.map (fun _ value => Preparation.scrubJson (left scrub) value) := by
  apply Std.ExtTreeMap.ext_getElem?
  intro key
  rw [Std.ExtTreeMap.getElem?_map]
  cases content : attrs[key]? with
  | none =>
    have other : key ∉ attrs.toList.map Prod.fst := by
      rw [Std.ExtTreeMap.map_fst_toList_eq_keys, Std.ExtTreeMap.mem_keys,
        ← Std.ExtTreeMap.isSome_getElem?_iff_mem, content]
      exact Bool.false_ne_true
    rw [scrubEach_other scrub _ other, content, Option.map_none]
  | some value =>
    have distinct : (attrs.toList.map Prod.fst).Nodup := by
      rw [Std.ExtTreeMap.map_fst_toList_eq_keys]
      exact Std.ExtTreeMap.nodup_keys
    have listed := Std.ExtTreeMap.mem_toList_iff_getElem?_eq_some.mpr content
    rw [scrubEach_value scrub _ distinct listed, Option.map_some, scrubJson_fst]

theorem mem_attrTexts {attrs : Attributes} {text : String} :
    text ∈ attrTexts attrs ↔ ∃ (key : String) (value : Json), attrs[key]? = some value ∧
      text ∈ texts value := by
  simp only [attrTexts, List.mem_flatMap, Prod.exists,
    Std.ExtTreeMap.mem_toList_iff_getElem?_eq_some]

/-! ## What redaction leaves of a span -/

/-- The span with each scanned text as the redactor left it and everything else as it was. -/
def cleanedSpan (span : NormalizedSpan) : NormalizedSpan :=
  { span with
    inputValue := span.inputValue.map (left scrub)
    outputValue := span.outputValue.map (left scrub)
    rawAttributes :=
      span.rawAttributes.map (fun _ value => Preparation.scrubJson (left scrub) value) }

theorem scrubSpan_fst (span : NormalizedSpan) :
    (scrubSpan scrub span).1 = cleanedSpan scrub span := by
  rw [scrubSpan, cleanedSpan, scrubEach_fst]

/-- What the redactor left of a text of the span. -/
def Cleaned (span : NormalizedSpan) (text : String) : Prop :=
  ∃ original ∈ scanned span, text = left scrub original

/-- A text that stands in the cleaned span, as a field or as an attribute. -/
theorem cleaned_input {span : NormalizedSpan} {text : String}
    (held : (cleanedSpan scrub span).inputValue = some text) : Cleaned scrub span text := by
  obtain ⟨original, given, rfl⟩ := Option.map_eq_some_iff.mp held
  exact ⟨original, by simp [scanned, given], rfl⟩

theorem cleaned_output {span : NormalizedSpan} {text : String}
    (held : (cleanedSpan scrub span).outputValue = some text) : Cleaned scrub span text := by
  obtain ⟨original, given, rfl⟩ := Option.map_eq_some_iff.mp held
  exact ⟨original, by simp [scanned, given], rfl⟩

theorem cleaned_attribute {span : NormalizedSpan} {key text : String}
    (held : (cleanedSpan scrub span).rawAttributes[key]? = some (.str text)) :
    Cleaned scrub span text := by
  rw [cleanedSpan, Std.ExtTreeMap.getElem?_map, Option.map_eq_some_iff] at held
  obtain ⟨before, given, clean⟩ := held
  cases before with
  | str original =>
    have among : original ∈ attrTexts span.rawAttributes :=
      mem_attrTexts.mpr ⟨key, .str original, given, List.mem_singleton_self original⟩
    exact ⟨original, List.mem_append_right _ among, (Json.str.inj clean).symm⟩
  | _ => cases clean

theorem hitsOf_scrubSpan (i : Nat) (span : NormalizedSpan) :
    hitsOf i (scrubSpan scrub span).2 = hitsIn scrub i (scanned span) := by
  -- a payload that is missing adds nothing
  have payload (field : Option String) (total : Hits) :
      ((field.map (fun text => addHits total (hits scrub text))).getD total).getD i 0 =
        total.getD i 0 + hitsIn scrub i field.toList := by
    cases field with
    | none => rfl
    | some text =>
      rw [Option.map_some, Option.getD_some, getD_addHits]
      simp [hitsIn]
  rw [scrubSpan, hitsOf_toList, getD_scrubEach, payload, payload, Std.ExtTreeMap.getD_empty,
    Nat.zero_add, scanned, hitsIn_append, hitsIn_append, attrTexts]

end

/-! ## What offloading writes -/

/-- A blob was there before, or is a clean text. -/
def AddsClean (clean : String → Prop) (later store : BlobStore) : Prop :=
  ∀ key bytes, later.fetch key = some bytes →
    store.fetch key = some bytes ∨ ∃ whole, clean whole ∧ bytes = utf8 whole

section

variable {clean : String → Prop}

theorem AddsClean.refl (clean : String → Prop) (store : BlobStore) :
    AddsClean clean store store := fun _ _ held => .inl held

theorem AddsClean.trans {later middle store : BlobStore} (second : AddsClean clean later middle)
    (first : AddsClean clean middle store) : AddsClean clean later store := by
  intro key bytes held
  cases second key bytes held with
  | inl before => exact first key bytes before
  | inr added => exact .inr added

theorem AddsClean.mono {clean' : String → Prop} {later store : BlobStore}
    (adds : AddsClean clean later store) (more : ∀ text, clean text → clean' text) :
    AddsClean clean' later store := by
  intro key bytes held
  cases adds key bytes held with
  | inl before => exact .inl before
  | inr added =>
    obtain ⟨whole, cleaned, spelled⟩ := added
    exact .inr ⟨whole, more whole cleaned, spelled⟩

/-- A call writes the bytes it is given and no others. -/
theorem fetch_putFrom {store : BlobStore} {disk : Disk} {base key : String}
    {bytes content : List UInt8} {fuel n : Nat}
    (held : (store.putFrom disk base bytes fuel n).2.fetch key = some content) :
    store.fetch key = some content ∨ content = bytes := by
  have written {name : String}
      (there : ({ files := store.files.insert name bytes } : BlobStore).fetch key = some content) :
      store.fetch key = some content ∨ content = bytes := by
    rw [BlobStore.fetch, getElem?_insert_if] at there
    split at there
    · exact .inr (Option.some.inj there).symm
    · exact .inl there
  induction fuel generalizing n with
  | zero => exact .inl held
  | succ fuel inductionHypothesis =>
    rw [BlobStore.putFrom] at held
    split at held
    · split at held
      · split at held
        · exact .inl held
        · exact inductionHypothesis held
      · cases answer : disk.write with
        | refused =>
          rw [answer] at held
          exact .inl held
        | taken =>
          rw [answer] at held
          exact written held
        | unsynced =>
          rw [answer] at held
          exact written held
    · exact .inl held

variable {hash : List UInt8 → UInt64}

theorem put_clean {store : BlobStore} (disk : Disk) {text : String} (whole : clean text) :
    AddsClean clean (store.put hash disk (utf8 text)).2 store := by
  intro key bytes held
  cases fetch_putFrom held with
  | inl before => exact .inl before
  | inr given => exact .inr ⟨text, whole, given⟩

theorem offloadField_clean {disk : Disk} {field : Option String} {attrs : Attributes}
    {attrKey : String} (store : BlobStore) (cap : Nat)
    (whole : ∀ text, field = some text → clean text) :
    AddsClean clean (offloadField hash disk field attrs attrKey store cap).2.2.1 store := by
  cases field with
  | none => exact AddsClean.refl clean store
  | some val =>
    have adds : AddsClean clean (store.put hash disk (utf8 val)).2 store :=
      put_clean disk (whole val rfl)
    rw [offloadField]
    split
    · exact AddsClean.refl clean store
    · split
      · next stored =>
        rw [stored] at adds
        exact adds
      · next stored =>
        rw [stored] at adds
        exact adds

/-- The notes are never moved. -/
theorem offloadAttribute_clean {disk : Disk} {key : String} {value : Json} (store : BlobStore)
    (cap : Nat)
    (whole : startsWith key "evald.blob." = false → ∀ text, value = .str text → clean text) :
    AddsClean clean (offloadAttribute hash disk store cap key value).2.1 store := by
  unfold offloadAttribute
  split
  · exact AddsClean.refl clean store
  · next foreign =>
    cases value with
    | str s =>
      have adds : AddsClean clean (store.put hash disk (utf8 s)).2 store :=
        put_clean disk (whole (by simpa using foreign) s rfl)
      simp only
      split
      · split
        · next stored =>
          rw [stored] at adds
          exact adds
        · next stored =>
          rw [stored] at adds
          exact adds
      · exact AddsClean.refl clean store
    | _ => exact AddsClean.refl clean store

theorem offloadEach_clean {disk : String → Disk} {cap : Nat} {entries : List (String × Json)}
    {attrs : Attributes} {store : BlobStore} {offloaded : Nat}
    (whole : ∀ key value, (key, value) ∈ entries → startsWith key "evald.blob." = false →
      ∀ text, value = .str text → clean text) :
    AddsClean clean (offloadEach hash disk cap entries (attrs, store, offloaded)).2.1 store := by
  induction entries generalizing attrs store offloaded with
  | nil => exact AddsClean.refl clean store
  | cons entry entries inductionHypothesis =>
    obtain ⟨key, value⟩ := entry
    have first : AddsClean clean (offloadAttribute hash (disk key) store cap key value).2.1 store :=
      offloadAttribute_clean store cap (whole key value List.mem_cons_self)
    have rest := @inductionHypothesis
      (attrs.insert key (offloadAttribute hash (disk key) store cap key value).1)
      (offloadAttribute hash (disk key) store cap key value).2.1
      (offloaded + (offloadAttribute hash (disk key) store cap key value).2.2)
      (fun key value later => whole key value (List.mem_cons_of_mem _ later))
    exact rest.trans first

/-- Of a cleaned span only clean texts are written. -/
theorem offloadSpan_clean (scrub : String → Option (String × List (Nat × Nat)))
    (disk : String → Disk) (cap : Nat) (span : NormalizedSpan) (store : BlobStore) :
    AddsClean (Cleaned scrub span)
      (offloadSpan hash disk cap (cleanedSpan scrub span) store).2.1 store := by
  let attrs := (cleanedSpan scrub span).rawAttributes
  let input := offloadField hash (disk inputKey) (cleanedSpan scrub span).inputValue attrs inputKey
    store cap
  let output := offloadField hash (disk outputKey) (cleanedSpan scrub span).outputValue input.2.1
    outputKey input.2.2.1 cap
  have first : AddsClean (Cleaned scrub span) input.2.2.1 store :=
    offloadField_clean store cap (fun _ held => cleaned_input scrub held)
  have second : AddsClean (Cleaned scrub span) output.2.2.1 input.2.2.1 :=
    offloadField_clean input.2.2.1 cap (fun _ held => cleaned_output scrub held)
  have third : AddsClean (Cleaned scrub span)
      (offloadEach hash disk cap output.2.1.toList (output.2.1, output.2.2.1, 0)).2.1
      output.2.2.1 := by
    apply offloadEach_clean
    rintro key value listed foreign text rfl
    -- an attribute that is no note stands there as it did before the two fields were moved
    have notInput : key ≠ inputKey := fun same => by rw [same] at foreign; cases foreign
    have notOutput : key ≠ outputKey := fun same => by rw [same] at foreign; cases foreign
    have kept : input.2.1[key]? = attrs[key]? := (offloadField_attrs ..).1 key notInput
    have kept' : output.2.1[key]? = input.2.1[key]? := (offloadField_attrs ..).1 key notOutput
    have held := Std.ExtTreeMap.mem_toList_iff_getElem?_eq_some.mp listed
    rw [kept', kept] at held
    exact cleaned_attribute scrub held
  exact third.trans (second.trans first)

end

/-! ## Runs of ingests -/

section

variable (scrub : String → Option (String × List (Nat × Nat))) (hash : List UInt8 → UInt64)

/-- The batch as it is offloaded. -/
def redacted (spans : List (NormalizedSpan × (String → Disk))) :
    List (NormalizedSpan × (String → Disk)) :=
  spans.map (fun s => (cleanedSpan scrub s.1, s.2))

/-- What the redactor left of a text of one of the spans. -/
def CleanedIn (sent : List (NormalizedSpan × (String → Disk))) (text : String) : Prop :=
  ∃ given ∈ sent, Cleaned scrub given.1 text

theorem CleanedIn.mono {scrub : String → Option (String × List (Nat × Nat))}
    {sent more : List (NormalizedSpan × (String → Disk))} (included : sent ⊆ more)
    {text : String} (cleaned : CleanedIn scrub sent text) : CleanedIn scrub more text := by
  obtain ⟨given, member, source⟩ := cleaned
  exact ⟨given, included member, source⟩

/-- Redaction adds no attribute. -/
theorem payloads_redacted (spans : List (NormalizedSpan × (String → Disk))) :
    ((redacted scrub spans).map (fun s => s.1.rawAttributes.size + 4)).sum =
      (spans.map (fun s => s.1.rawAttributes.size + 4)).sum := by
  have size (span : NormalizedSpan) :
      (cleanedSpan scrub span).rawAttributes.size = span.rawAttributes.size :=
    Std.ExtTreeMap.size_map
  simp only [redacted, List.map_map, Function.comp_def, size]

theorem offloadSpans_clean (cap : Nat) (spans : List (NormalizedSpan × (String → Disk)))
    (store : BlobStore) :
    AddsClean (CleanedIn scrub spans)
      (offloadSpans hash cap (redacted scrub spans) store).2.1 store := by
  induction spans generalizing store with
  | nil => exact AddsClean.refl _ store
  | cons given spans inductionHypothesis =>
    obtain ⟨span, disk⟩ := given
    have first : AddsClean (Cleaned scrub span)
        (offloadSpan hash disk cap (cleanedSpan scrub span) store).2.1 store :=
      offloadSpan_clean scrub disk cap span store
    have later := (inductionHypothesis
      (offloadSpan hash disk cap (cleanedSpan scrub span) store).2.1).mono
        (fun _ cleaned => cleaned.mono (List.subset_cons_self (span, disk) spans))
    exact later.trans (first.mono (fun _ cleaned => ⟨(span, disk), List.mem_cons_self, cleaned⟩))

theorem offloadLargePayloads_clean (cap : Nat)
    (spans : List (NormalizedSpan × (String → Disk))) (store : BlobStore) :
    AddsClean (CleanedIn scrub spans)
      (offloadLargePayloads hash (redacted scrub spans) store cap).2.1 store := by
  rw [offloadLargePayloads]
  split
  · exact AddsClean.refl _ store
  · exact offloadSpans_clean scrub hash cap spans store

/-- What a span that was sent has become, by the names in a later store. -/
def StoredAs (later : BlobStore) (cap : Nat) (room : Prop)
    (given : NormalizedSpan × (String → Disk)) (after : NormalizedSpan) : Prop :=
  SpanStored (Named hash later) cap given.2 (cap ≠ 0 ∧ room) (cleanedSpan scrub given.1) after

theorem offloadLargePayloads_storedAs {cap : Nat}
    {spans : List (NormalizedSpan × (String → Disk))} {store : BlobStore} {room : Prop}
    (fits : room → HasRoom store spans) :
    let done := offloadLargePayloads hash (redacted scrub spans) store cap
    List.Forall₂ (StoredAs scrub hash done.2.1 cap room) spans done.1 := by
  intro done
  rw [List.forall₂_iff_get]
  refine ⟨?_, fun i small small' => ?_⟩
  · rw [length_offloadLargePayloads, redacted, List.length_map]
  · have given : (redacted scrub spans)[i]? =
        some (cleanedSpan scrub (spans[i]).1, (spans[i]).2) := by
      rw [redacted, List.getElem?_map, List.getElem?_eq_getElem small, Option.map_some]
    have result := List.getElem?_eq_getElem small'
    rw [List.get_eq_getElem, List.get_eq_getElem, StoredAs]
    generalize done.1[i] = after at result ⊢
    simp only [done] at result ⊢
    rw [offloadLargePayloads] at result ⊢
    split at result
    · next off =>
      -- nothing is moved
      rw [List.getElem?_map, given, Option.map_some] at result
      cases result
      have never {key : String} (good : (spans[i]).2 key = {} ∧ cap ≠ 0 ∧ room) : False :=
        good.2.1 off
      exact {
        input := .inl ⟨rfl, rfl, fun _ _ _ => never⟩
        output := .inl ⟨rfl, rfl, fun _ _ _ => never⟩
        attr := fun _ _ => .inl ⟨rfl, fun _ _ _ _ => never⟩
        own := fun _ _ _ _ => rfl
        rest := rfl }
    · next on =>
      rw [if_neg on]
      exact offloadSpans_stored (cap ≠ 0 ∧ room)
        (fun holds => by rw [HasRoom, payloads_redacted]; exact fits holds.2) given result
        (Extends.refl _)

theorem getElem?_countSpans (i : Nat) (spans : List (NormalizedSpan × (String → Disk)))
    (counters : List Nat) :
    (spans.foldl (fun counters s => countHits counters (scrubSpan scrub s.1).2) counters)[i]? =
      counters[i]?.map (· + (spans.map (fun s => hitsIn scrub i (scanned s.1))).sum) := by
  induction spans generalizing counters with
  | nil => simp
  | cons given spans inductionHypothesis =>
    rw [List.foldl_cons, inductionHypothesis, getElem?_countHits, hitsOf_scrubSpan]
    cases counters[i]? <;> simp [Nat.add_assoc]

/-- What a run of ingests has stored of the spans it was sent. -/
structure Redacted (cap rules : Nat) (sent : List (NormalizedSpan × (String → Disk)))
    (stored : Stored) : Prop where
  spans : List.Forall₂ (StoredAs scrub hash stored.blobs cap (HasRoom {} sent)) sent stored.spans
  blobs : ∀ key bytes, stored.blobs.fetch key = some bytes →
    ∃ text, CleanedIn scrub sent text ∧ bytes = utf8 text
  size : stored.blobs.files.size ≤ (sent.map (fun s => s.1.rawAttributes.size + 4)).sum
  counters : ∀ i < rules,
    stored.counters[i]? = some (sent.map (fun s => hitsIn scrub i (scanned s.1))).sum

variable {scrub}

theorem ingest_eq (cap : Nat) (stored : Stored) (spans : List (NormalizedSpan × (String → Disk))) :
    ingest (some scrub) hash cap stored spans =
      { spans := stored.spans ++
          (offloadLargePayloads hash (redacted scrub spans) stored.blobs cap).1
        blobs := (offloadLargePayloads hash (redacted scrub spans) stored.blobs cap).2.1
        counters := spans.foldl (fun counters s => countHits counters (scrubSpan scrub s.1).2)
          stored.counters } := by
  have batch : spans.map (fun s => ((scrubSpan scrub s.1).1, s.2)) = redacted scrub spans := by
    simp only [redacted, scrubSpan_fst]
  simp only [ingest, prepareForStorage, batch]

theorem Redacted.ingest {cap rules : Nat} {sent : List (NormalizedSpan × (String → Disk))}
    {stored : Stored} (before : Redacted scrub hash cap rules sent stored)
    (spans : List (NormalizedSpan × (String → Disk))) :
    Redacted scrub hash cap rules (sent ++ spans)
      (ingest (some scrub) hash cap stored spans) := by
  -- room for both batches is room for the first and, after it, for the second
  have total : HasRoom {} (sent ++ spans) →
      HasRoom {} sent ∧ HasRoom stored.blobs spans := by
    have size := before.size
    simp only [HasRoom, List.map_append, List.sum_append]
    omega
  obtain ⟨grown, size⟩ := offloadLargePayloads_store hash cap (redacted scrub spans) stored.blobs
  rw [ingest_eq]
  constructor
  · refine List.rel_append (before.spans.imp ?_) ?_
    · exact fun given after kept => kept.mono (fun _ _ named => named.later grown)
        (And.imp_right (fun room => (total room).1))
    · exact offloadLargePayloads_storedAs scrub hash (fun room => (total room).2)
  -- a payload of this ingest is a cleaned text of one of its spans
  · intro key bytes held
    cases offloadLargePayloads_clean scrub hash cap spans stored.blobs key bytes held with
    | inl old =>
      obtain ⟨text, cleaned, spelled⟩ := before.blobs key bytes old
      exact ⟨text, cleaned.mono (List.subset_append_left _ _), spelled⟩
    | inr new =>
      obtain ⟨text, cleaned, spelled⟩ := new
      exact ⟨text, cleaned.mono (List.subset_append_right _ _), spelled⟩
  · rw [payloads_redacted] at size
    rw [List.map_append, List.sum_append]
    exact Nat.le_trans size (Nat.add_le_add_right before.size _)
  · intro i small
    rw [getElem?_countSpans, before.counters i small, Option.map_some, List.map_append,
      List.sum_append]

/-- Over any run of ingests with a policy, whatever the hash, the cap and the disk do: the log
holds every span that was sent, in order, each payload and each attribute of it with the texts
as the redactor left them, in place or, when that is longer than the cap, behind a reference
that is followed to it, with a note beside a moved payload and nothing else added, lost or
changed; every blob is a redacted text of a span; and each rule's counter is its hits over all
of the texts that were sent. -/
theorem stored_redacted (scrub : String → Option (String × List (Nat × Nat)))
    (hash : List UInt8 → UInt64) (cap rules : Nat)
    (batches : List (List (NormalizedSpan × (String → Disk)))) :
    let sent := batches.flatten
    let stored := batches.foldl (ingest (some scrub) hash cap)
      { counters := List.replicate rules 0 }
    List.Forall₂ (fun given after => SpanStored (Reference stored.blobs) cap given.2
        (cap ≠ 0 ∧ HasRoom {} sent) (cleanedSpan scrub given.1) after) sent stored.spans ∧
      (∀ key bytes, stored.blobs.fetch key = some bytes →
        ∃ text, CleanedIn scrub sent text ∧ bytes = utf8 text) ∧
      ∀ i < rules, stored.counters[i]? =
        some (sent.map (fun s => hitsIn scrub i (scanned s.1))).sum := by
  have run : Redacted scrub hash cap rules batches.flatten
      (batches.foldl (ingest (some scrub) hash cap) { counters := List.replicate rules 0 }) := by
    -- each batch keeps what the earlier ones left
    induction batches using List.reverseRecOn with
    | nil =>
      refine ⟨.nil, fun key bytes held => ?_, Nat.le_refl _, fun i small => ?_⟩
      · simp [BlobStore.fetch] at held
      · simp [small]
    | append_singleton batches batch inductionHypothesis =>
      rw [List.foldl_concat, List.flatten_append]
      simpa using inductionHypothesis.ingest hash batch
  refine ⟨run.spans.imp ?_, run.blobs, run.counters⟩
  exact fun given after kept =>
    kept.mono (fun _ _ named => reference_of_names named) (fun room => room)

end

/-! ## What the doors do -/

section

variable (p : Preparation)

/-- What stands in place of a field. -/
def moved (field : Option String) : Option String :=
  field.map (fun text => (p.offloaded text).getD text)

/-- What is noted of a field, if it is moved. -/
def noted (field : Option String) : Option Json :=
  field.bind (fun text => (p.offloaded text).map (fun ref => blobNote ref text))

theorem offloadInput_span (span : NormalizedSpan) (field : Option String) :
    p.offloadInput { span with inputValue := field } =
      { span with
        inputValue := moved p field
        rawAttributes := ((noted p field).map
          (span.rawAttributes.insert inputKey)).getD span.rawAttributes } := by
  cases field with
  | none => rfl
  | some text =>
    simp only [Preparation.offloadInput, moved, noted, Option.map_some, Option.bind_some]
    cases p.offloaded text <;> rfl

theorem offloadOutput_span (span : NormalizedSpan) (field : Option String) :
    p.offloadOutput { span with outputValue := field } =
      { span with
        outputValue := moved p field
        rawAttributes := ((noted p field).map
          (span.rawAttributes.insert outputKey)).getD span.rawAttributes } := by
  cases field with
  | none => rfl
  | some text =>
    simp only [Preparation.offloadOutput, moved, noted, Option.map_some, Option.bind_some]
    cases p.offloaded text <;> rfl

/-- A note among the attributes. -/
theorem getElem?_noted (note : Option Json) (attrs : Attributes) (own key : String) :
    ((note.map (attrs.insert own)).getD attrs)[key]? =
      if key = own then note.or attrs[key]? else attrs[key]? := by
  cases note with
  | none => simp
  | some note =>
    rw [Option.map_some, Option.getD_some, getElem?_insert_if, Option.some_or]

variable {p} {refers : String → String → Prop}

/-- With the write going through, a long text is moved to where `put` says. -/
theorem moved_of_stored {good : Prop} {before after : Option String}
    {noteBefore noteAfter : Option Json}
    (names : ∀ text ref, refers text ref → p.put text = some ref) (holds : good)
    (stored : FieldStored refers p.cap good before after noteBefore noteAfter) :
    after = moved p before ∧ noteAfter = (noted p before).or noteBefore := by
  cases stored with
  | inl inline =>
    obtain ⟨rfl, rfl, short⟩ := inline
    cases after with
    | none => exact ⟨rfl, rfl⟩
    | some text =>
      have fits : (utf8 text).length ≤ p.cap :=
        Nat.le_of_not_lt (fun long => short text rfl long holds)
      have stays : p.offloaded text = none := if_pos fits
      simp [moved, noted, stays]
  | inr gone =>
    obtain ⟨text, ref, rfl, rfl, rfl, long, refer⟩ := gone
    have leaves : p.offloaded text = some ref := by
      rw [Preparation.offloaded, if_neg (Nat.not_le.mpr long), names text ref refer]
    simp [moved, noted, leaves]

theorem offloadAttribute_of_stored {good : Prop} {key : String} {before after : Option Json}
    (names : ∀ text ref, refers text ref → p.put text = some ref) (holds : good)
    (foreign : startsWith key "evald.blob." = false)
    (stored : AttributeStored refers p.cap good before after) :
    after = before.map (p.offloadAttribute key) := by
  have plain : ¬ startsWith key "evald.blob." = true := by simp [foreign]
  cases stored with
  | inl inline =>
    obtain ⟨rfl, short⟩ := inline
    cases after with
    | none => rfl
    | some value =>
      unfold Preparation.offloadAttribute
      rw [Option.map_some, if_neg plain]
      cases value with
      | str text =>
        simp only
        split
        · rfl
        · next unmarked =>
          have plain : startsWith text refPrefix = false := by
            rw [← Bool.not_eq_true]
            exact unmarked
          -- a longer text would have been moved
          have fits : (utf8 text).length ≤ p.cap :=
            Nat.le_of_not_lt (fun long => short text rfl long plain holds)
          have stays : p.offloaded text = none := if_pos fits
          rw [stays]
      | _ => rfl
  | inr gone =>
    obtain ⟨text, ref, rfl, rfl, unmarked, long, refer⟩ := gone
    have leaves : p.offloaded text = some ref := by
      rw [Preparation.offloaded, if_neg (Nat.not_le.mpr long), names text ref refer]
    have inline : ¬ startsWith text Preparation.blobRefPrefix = true := by
      rw [Bool.not_eq_true]
      exact unmarked
    unfold Preparation.offloadAttribute
    simp [plain, inline, leaves]

/-- With a disk that answers well and names left, a span is stored as the doors offload it. -/
theorem offload_of_stored {disk : String → Disk} {room : Prop} {before after : NormalizedSpan}
    (names : ∀ text ref, refers text ref → p.put text = some ref) (on : p.cap ≠ 0)
    (answers : ∀ key, disk key = {}) (holds : room)
    (stored : SpanStored refers p.cap disk room before after) : after = p.offload before := by
  obtain ⟨input, inputNote⟩ := moved_of_stored names ⟨answers inputKey, holds⟩ stored.input
  obtain ⟨output, outputNote⟩ := moved_of_stored names ⟨answers outputKey, holds⟩ stored.output
  let fields := p.offloadOutput (p.offloadInput before)
  have written : fields =
      { before with
        inputValue := after.inputValue
        outputValue := after.outputValue
        rawAttributes := ((noted p before.outputValue).map
          ((((noted p before.inputValue).map (before.rawAttributes.insert inputKey)).getD
            before.rawAttributes).insert outputKey)).getD
          (((noted p before.inputValue).map (before.rawAttributes.insert inputKey)).getD
            before.rawAttributes) } := by
    have first := offloadInput_span p before before.inputValue
    have second := offloadOutput_span p
      { before with
        inputValue := moved p before.inputValue
        rawAttributes := ((noted p before.inputValue).map
          (before.rawAttributes.insert inputKey)).getD before.rawAttributes } before.outputValue
    rw [input, output]
    exact (congrArg p.offloadOutput first).trans second
  -- key by key: an attribute of the span, one of the two notes, or another note
  have attrs : after.rawAttributes = fields.rawAttributes.map p.offloadAttribute := by
    apply Std.ExtTreeMap.ext_getElem?
    intro key
    rw [Std.ExtTreeMap.getElem?_map, written]
    simp only [getElem?_noted]
    cases own : startsWith key "evald.blob." with
    | false =>
      have notInput : key ≠ inputKey := fun same => by rw [same] at own; cases own
      have notOutput : key ≠ outputKey := fun same => by rw [same] at own; cases own
      rw [if_neg notOutput, if_neg notInput]
      exact offloadAttribute_of_stored names ⟨answers key, holds⟩ own (stored.attr key own)
    | true =>
      -- a note is left alone
      have alone : ∀ content : Option Json, content.map (p.offloadAttribute key) = content := by
        intro content
        cases content with
        | none => rfl
        | some value => exact congrArg some (if_pos own)
      rw [alone]
      by_cases isInput : key = inputKey
      · rw [isInput, if_neg (by decide), if_pos rfl, inputNote]
      · by_cases isOutput : key = outputKey
        · rw [isOutput, if_pos rfl, if_neg (by decide), outputNote]
        · rw [if_neg isOutput, if_neg isInput]
          exact stored.own key own isInput isOutput
  -- the other fields are as they were
  have whole : after =
      { ({ after with
          inputValue := before.inputValue
          outputValue := before.outputValue
          rawAttributes := before.rawAttributes } : NormalizedSpan) with
        inputValue := after.inputValue
        outputValue := after.outputValue
        rawAttributes := after.rawAttributes } := rfl
  have spelled (attrs : Attributes) :
      { fields with rawAttributes := attrs } =
        { before with
          inputValue := after.inputValue
          outputValue := after.outputValue
          rawAttributes := attrs } := by
    rw [written]
  rw [stored.rest, attrs, ← spelled] at whole
  rw [Preparation.offload, if_neg on]
  exact whole

end

/-- What the store keeps of a batch is what the doors' preparation makes of it, with the names of
the store as its references. -/
theorem prepareForStorage_prepare (scrub : String → Option (String × List (Nat × Nat)))
    (hash : List UInt8 → UInt64) (cap : Nat) {spans : List (NormalizedSpan × (String → Disk))}
    {store : BlobStore} (counters : List Nat) (room : HasRoom store spans)
    (answers : ∀ given ∈ spans, ∀ key, given.2 key = {}) :
    ∃ put : String → Option String,
      (prepareForStorage (some scrub) hash cap spans store counters).1.1 =
        spans.map (fun given =>
          Preparation.prepare { scrub := left scrub, cap := cap, put := put } given.1) := by
  classical
  let done := offloadLargePayloads hash (redacted scrub spans) store cap
  -- a text has one name in the store
  let put (text : String) : Option String :=
    if name : ∃ ref, Named hash done.2.1 text ref then some name.choose else none
  have names (text ref : String) (named : Named hash done.2.1 text ref) : put text = some ref := by
    have name : ∃ ref, Named hash done.2.1 text ref := ⟨ref, named⟩
    rw [show put text = some name.choose from dif_pos name, name.choose_spec.unique named]
  refine ⟨put, ?_⟩
  have prepared : (prepareForStorage (some scrub) hash cap spans store counters).1.1 = done.1 := by
    have same := congrArg Stored.spans (@ingest_eq scrub hash cap
      { blobs := store, counters := counters } spans)
    simpa [ingest] using same
  rw [prepared]
  let p : Preparation := { scrub := left scrub, cap := cap, put := put }
  by_cases off : cap = 0
  · have inline (span : NormalizedSpan) : p.prepare span = cleanedSpan scrub span := if_pos off
    simp only [done, offloadLargePayloads, if_pos off, redacted, List.map_map]
    exact List.map_congr_left (fun given _ => (inline given.1).symm)
  · obtain ⟨lengths, each⟩ := List.forall₂_iff_get.mp
      (offloadLargePayloads_storedAs scrub hash (fun holds : HasRoom store spans => holds))
    apply List.ext_getElem (by rw [List.length_map, lengths])
    intro i small small'
    rw [List.length_map] at small'
    rw [List.getElem_map]
    exact offload_of_stored (p := p) names off (answers _ (List.getElem_mem small')) ⟨off, room⟩
      (each i small' small)

end Evald.Redact
