import Evald.Price

/-! # Building a price table, and the letter case of a model id

A table is read from a JSON object of `model -> prices` under lowercase names, and one
table may be laid over another.  A model id is looked up as it is, then in lower case with
what surrounds the model's name dropped; an `@` starts a part that is dropped first, so a
name that contains one is only found as it is (`lookup_lowercase_iff`).
-/

namespace Evald.Pricing

open Evald.Lib

/-! ## Reading a table -/

def jsonField (members : List (String × Json)) (key : String) : Option Json :=
  (members.find? (fun m => m.1 = key)).map Prod.snd

/-- Around the first occurrence of `separator`. -/
def splitOnceText (separator : List Char) : List Char → List Char → Option (String × String)
  | seen, rest =>
    match rest with
    | [] => none
    | c :: tail =>
      if separator.isPrefixOf rest then
        some (String.ofList seen.reverse, String.ofList (rest.drop separator.length))
      else splitOnceText separator (c :: seen) tail

def stripSuffix (s ending : String) : Option String :=
  if ending.toList.isSuffixOf s.toList then
    some (String.ofList (s.toList.take (s.length - ending.length)))
  else none

/-- `input_cost_per_token_above_200k_tokens` is the rate `input_cost_per_token` of the tier
above 200000.  A further suffix does not parse. -/
def tierKey (k : String) : Option (String × Nat) :=
  match splitOnceText "_above_".toList [] k.toList with
  | none => none
  | some (field, rest) =>
    if field ∈ ["input_cost_per_token", "output_cost_per_token", "cache_read_input_token_cost",
        "cache_creation_input_token_cost"] then
      match stripSuffix rest "_tokens" with
      | none => none
      | some n =>
        let (digits, mult) :=
          match stripSuffix n "k" with
          | some d => (d, 1000)
          | none => (n, 1)
        (parseU64 digits).map (fun above => (field, above * mult % 2 ^ 64))
    else none

def Tier.set (t : Tier) (field : String) (rate : F64) : Tier :=
  if field = "input_cost_per_token" then { t with input := some rate }
  else if field = "output_cost_per_token" then { t with output := some rate }
  else if field = "cache_read_input_token_cost" then { t with cacheRead := some rate }
  else { t with cacheWrite := some rate }

variable (deps : Deps)

def addTier (tiers : Std.ExtTreeMap Nat Tier) (entry : String × Json) :
    Std.ExtTreeMap Nat Tier :=
  match tierKey entry.1, entry.2.asF64 deps.float with
  | some (field, above), some rate =>
    tiers.insert above ((tiers.getD above { above := above }).set field rate)
  | _, _ => tiers

/-- One entry, `none` when it has no price per token at all. -/
def parseEntry (e : List (String × Json)) : Option Price :=
  let num (k : String) := (jsonField e k).bind (Json.asF64 deps.float)
  let input := num "input_cost_per_token"
  let output := num "output_cost_per_token"
  if input.isNone && output.isNone then none
  else
    some
      { base :=
          { input := input.getD (.finite 0)
            output := output.getD (.finite 0)
            cacheRead := num "cache_read_input_token_cost"
            cacheWrite := num "cache_creation_input_token_cost" }
        reasoning := num "output_cost_per_reasoning_token"
        tiers := (e.foldl (addTier deps) ∅).toList.map Prod.snd }

/-- `<commit>@<date>` of the source, or a short hash of the text. -/
def versionOf (root : List (String × Json)) (text : String) : String :=
  let source (key : String) : Option String :=
    match jsonField root "_evald" with
    | some (.obj m) => (jsonField m key).bind Json.asStr
    | _ => none
  match source "commit", source "date" with
  | some commit, some date => String.ofList (commit.toList.take 8) ++ "@" ++ date
  | _, _ =>
    "sha256:" ++ String.ofList ((hexEncode (deps.sha256 (utf8 text))).toList.take 8)

/-- Names are kept in lower case; the entry about the table and the sample are skipped. -/
def addModel (models : Std.ExtTreeMap String Price) (entry : String × Json) :
    Std.ExtTreeMap String Price :=
  if entry.1 = "_evald" || entry.1 = "sample_spec" then models
  else
    match entry.2 with
    | .obj e =>
      match parseEntry deps e with
      | some price => models.insert (asciiLowercase entry.1) price
      | none => models
    | _ => models

def PriceTable.fromJson (text : String) : Except String PriceTable :=
  match deps.parseJson text with
  | none => .error "price table is not valid JSON"
  | some (.obj root) =>
    .ok { version := versionOf deps root text, models := root.foldl (addModel deps) ∅ }
  | some _ => .error "price table must be a JSON object of `model -> prices`"

/-- The other table wins for any model it names. -/
def PriceTable.overlaidWith (table overlay : PriceTable) : PriceTable :=
  { version := overlay.version ++ "+" ++ table.version
    models := overlay.models.toList.foldl (fun models m => models.insert m.1 m.2) table.models }

/-- Read from JSON, or one laid over another. -/
inductive PriceTable.Built : PriceTable → Prop
  | fromJson {text : String} {table : PriceTable}
      (read : PriceTable.fromJson deps text = .ok table) : Built table
  | overlaid {table overlay : PriceTable} (built : Built table) (builtOverlay : Built overlay) :
      Built (table.overlaidWith overlay)

/-! ## Names are in lower case -/

def Lowercase (models : Std.ExtTreeMap String Price) : Prop :=
  ∀ k ∈ models, asciiLowercase k = k

theorem asciiLowercase_idem (s : String) :
    asciiLowercase (asciiLowercase s) = asciiLowercase s := by
  unfold asciiLowercase
  rw [String.toList_ofList, List.map_map]
  congr 1
  apply List.map_congr_left
  intro c _
  exact Char.toLower_toLower_eq_toLower c

theorem Lowercase.insert {models : Std.ExtTreeMap String Price} (lower : Lowercase models)
    {name : String} (isLower : asciiLowercase name = name) (price : Price) :
    Lowercase (models.insert name price) := by
  intro k listed
  rw [Std.ExtTreeMap.mem_insert, Std.LawfulEqOrd.compare_eq_iff_eq] at listed
  cases listed with
  | inl isName => rw [← isName, isLower]
  | inr earlier => exact lower k earlier

theorem Lowercase.addModel {models : Std.ExtTreeMap String Price} (lower : Lowercase models)
    (entry : String × Json) : Lowercase (addModel deps models entry) := by
  unfold Pricing.addModel
  split
  · exact lower
  · split
    · split
      · exact lower.insert (asciiLowercase_idem _) _
      · exact lower
    · exact lower

theorem PriceTable.Built.lowercase {table : PriceTable} (built : table.Built deps) :
    Lowercase table.models := by
  induction built with
  | @fromJson text table read =>
    unfold PriceTable.fromJson at read
    split at read
    · cases read
    · next root _ =>
      cases read
      have added : ∀ (entries : List (String × Json)) (models : Std.ExtTreeMap String Price),
          Lowercase models → Lowercase (entries.foldl (Pricing.addModel deps) models) := by
        intro entries
        induction entries with
        | nil => exact fun _ lower => lower
        | cons entry entries inductionHypothesis =>
          exact fun _ lower => inductionHypothesis _ (lower.addModel deps entry)
      exact added root ∅ (fun k never => absurd never Std.ExtTreeMap.not_mem_empty)
    · cases read
  | @overlaid table overlay _ _ lower lowerOverlay =>
    have laid : ∀ (entries : List (String × Price)) (models : Std.ExtTreeMap String Price),
        (∀ m ∈ entries, asciiLowercase m.1 = m.1) → Lowercase models →
          Lowercase (entries.foldl (fun models m => models.insert m.1 m.2) models) := by
      intro entries
      induction entries with
      | nil => exact fun _ _ lower => lower
      | cons entry entries inductionHypothesis =>
        intro models names lower
        exact inductionHypothesis _ (fun m listed => names m (List.mem_cons_of_mem _ listed))
          (lower.insert (names entry List.mem_cons_self) entry.2)
    apply laid _ _ _ lower
    intro m listed
    apply lowerOverlay
    rw [Std.ExtTreeMap.mem_iff_isSome_getElem?,
      Std.ExtTreeMap.mem_toList_iff_getElem?_eq_some.mp listed]
    rfl

/-! ## What a lookup finds -/

section Found

variable {table : PriceTable} {hit : String × Price}

theorem find_key {name : String} (found : table.find name = some hit) : hit.1 = name := by
  obtain ⟨price, -, rfl⟩ := Option.map_eq_some_iff.mp found
  rfl

theorem find_eq_none_iff {name : String} : table.find name = none ↔ name ∉ table.models := by
  rw [PriceTable.find, Option.map_eq_none_iff, Std.ExtTreeMap.mem_iff_isSome_getElem?,
    Option.not_isSome_iff_eq_none]

theorem mem_head_rsplitOnce {s head segment : String} {separator : Char}
    (parts : rsplitOnce s separator = some (head, segment)) {c : Char} (among : c ∈ head.toList) :
    c ∈ s.toList := by
  unfold rsplitOnce at parts
  split at parts
  · cases parts
    rw [String.toList_ofList, List.mem_reverse] at among
    exact List.mem_reverse.mp ((List.dropWhile_suffix _).subset (List.mem_of_mem_tail among))
  · cases parts

/-- What is found has only characters of what was looked up. -/
theorem mem_of_lookupStrippingVersions {fuel : Nat} {name : String}
    (found : table.lookupStrippingVersions fuel name = some hit) {c : Char}
    (among : c ∈ hit.1.toList) : c ∈ name.toList := by
  induction fuel generalizing name with
  | zero => cases found
  | succ fuel inductionHypothesis =>
    unfold PriceTable.lookupStrippingVersions at found
    split at found
    · next here =>
      cases found
      rwa [find_key here] at among
    · split at found
      · next head segment parts =>
        split at found
        · exact mem_head_rsplitOnce parts (inductionHypothesis found)
        · cases found
      · cases found

theorem mem_of_stripRegion {name : String} {c : Char} (among : c ∈ (stripRegion name).toList) :
    c ∈ name.toList := by
  unfold stripRegion at among
  simp only at among
  generalize ["us-gov.", "us.", "eu.", "apac.", "global.", "au.", "jp.", "ca."] = regions at among
  cases found : regions.findSome? (stripPrefix name) with
  | none =>
    rw [found] at among
    exact among
  | some rest =>
    rw [found] at among
    obtain ⟨region, -, stripped⟩ := List.exists_of_findSome?_eq_some found
    rw [stripPrefix_eq_some.mp stripped, String.toList_append]
    exact List.mem_append_right _ among

/-- On the way through providers only names without an `@` are tried. -/
theorem no_at_of_lookupDroppingProviders {fuel : Nat} {rest : String}
    (found : table.lookupDroppingProviders fuel rest = some hit) : '@' ∉ hit.1.toList := by
  induction fuel generalizing rest with
  | zero => cases found
  | succ fuel inductionHypothesis =>
    unfold PriceTable.lookupDroppingProviders at found
    simp only at found
    have noAt : '@' ∉ (String.ofList (rest.toList.takeWhile (· ≠ '@'))).toList := by
      rw [String.toList_ofList]
      intro among
      exact absurd (List.mem_takeWhile_imp among) (by simp)
    split at found
    · next here =>
      cases found
      obtain ⟨name, listed, stripped⟩ := List.exists_of_findSome?_eq_some here
      intro among
      have inName := mem_of_lookupStrippingVersions stripped among
      simp only [List.mem_cons, List.not_mem_nil, or_false] at listed
      cases listed with
      | inl isBase => exact noAt (isBase ▸ inName)
      | inr isStripped => exact noAt (mem_of_stripRegion (isStripped ▸ inName))
    · split at found
      · split at found
        · cases found
        · exact inductionHypothesis found
      · cases found

end Found

/-- A name without an `@` is tried as it is before anything is dropped. -/
theorem lookupDroppingProviders_of_find {table : PriceTable} {fuel : Nat} {name : String}
    {hit : String × Price} (found : table.find name = some hit) (noAt : '@' ∉ name.toList) :
    table.lookupDroppingProviders (fuel + 1) name = some hit := by
  have whole : String.ofList (name.toList.takeWhile (· ≠ '@')) = name := by
    rw [List.takeWhile_eq_self_iff.mpr, String.ofList_toList]
    intro c among
    simp only [decide_eq_true_eq]
    exact fun isAt => noAt (isAt ▸ among)
  have tried : table.lookupStrippingVersions 5 name = some hit := by
    unfold PriceTable.lookupStrippingVersions
    rw [found]
  unfold PriceTable.lookupDroppingProviders
  simp only [whole, List.findSome?_cons, tried]

/-- The letter case of a model id does not matter exactly where its lowercase form is no
name of the table with an `@`. -/
theorem lookup_lowercase_iff {table : PriceTable} (built : table.Built deps) (m : String) :
    table.lookup m = table.lookup (asciiLowercase m) ↔
      m = asciiLowercase m ∨ asciiLowercase m ∉ table.models ∨ '@' ∉ (asciiLowercase m).toList := by
  have slow (other : m ≠ asciiLowercase m) : table.lookup m =
      table.lookupDroppingProviders ((asciiLowercase m).length + 1) (asciiLowercase m) := by
    have absent : table.find m = none := by
      rw [find_eq_none_iff]
      exact fun listed => other (built.lowercase deps m listed).symm
    unfold PriceTable.lookup
    rw [absent]
  by_cases same : m = asciiLowercase m
  · rw [← same]
    simp
  · rw [slow same, PriceTable.lookup, asciiLowercase_idem]
    cases found : table.find (asciiLowercase m) with
    | none => simp [find_eq_none_iff.mp found]
    | some hit =>
      have listed : asciiLowercase m ∈ table.models := by
        by_contra absent
        rw [find_eq_none_iff.mpr absent] at found
        cases found
      simp only [same, listed, not_true_eq_false, false_or]
      constructor
      · intro equal
        rw [← find_key found]
        exact no_at_of_lookupDroppingProviders equal
      · exact lookupDroppingProviders_of_find found

def gemmaText : String := "\x7b\"gemma@001\":\x7b\"input_cost_per_token\":1\x7d\x7d"

/-- A host that reads one text. -/
def gemmaHost : Deps :=
  { Deps.hashing with
    parseJson := fun text =>
      if text = gemmaText then
        some (.obj [("gemma@001", .obj [("input_cost_per_token", .int 1)])])
      else none }

def gemmaPrice : Price := { base := { input := .finite 1, output := .finite 0 } }

def gemmaTable : PriceTable :=
  { version := versionOf gemmaHost
      [("gemma@001", .obj [("input_cost_per_token", .int 1)])] gemmaText
    models := (∅ : Std.ExtTreeMap String Price).insert "gemma@001" gemmaPrice }

theorem gemmaTable_built : gemmaTable.Built gemmaHost := by
  refine @PriceTable.Built.fromJson _ gemmaText _ ?_
  have noTier : addTier gemmaHost ∅ ("input_cost_per_token", .int 1) = ∅ := by
    unfold addTier
    rw [show tierKey "input_cost_per_token" = none by decide]
  have entry : parseEntry gemmaHost [("input_cost_per_token", .int 1)] = some gemmaPrice := by
    simp only [parseEntry, List.foldl_cons, List.foldl_nil, noTier]
    rfl
  have lower : asciiLowercase "gemma@001" = "gemma@001" := by decide
  have read : gemmaHost.parseJson gemmaText =
      some (.obj [("gemma@001", .obj [("input_cost_per_token", .int 1)])]) := by
    simp [gemmaHost]
  unfold PriceTable.fromJson
  rw [read]
  simp only [List.foldl_cons, List.foldl_nil, addModel, entry, lower]
  rfl

theorem lookup_lowercase_iff_gemma :
    gemmaTable.lookup "GEMMA@001" = gemmaTable.lookup (asciiLowercase "GEMMA@001") ↔
      "GEMMA@001" = asciiLowercase "GEMMA@001" ∨
        asciiLowercase "GEMMA@001" ∉ gemmaTable.models ∨
        '@' ∉ (asciiLowercase "GEMMA@001").toList :=
  lookup_lowercase_iff gemmaHost gemmaTable_built "GEMMA@001"

/-- A name with an `@`, in another letter case. -/
theorem lookup_reads_case : gemmaTable.Built gemmaHost ∧
    (gemmaTable.lookup "gemma@001").isSome = true ∧
    gemmaTable.lookup "GEMMA@001" = none ∧
    asciiLowercase "GEMMA@001" = "gemma@001" := by
  have listed (name : String) :
      gemmaTable.find name = if name = "gemma@001" then some (name, gemmaPrice) else none := by
    unfold PriceTable.find gemmaTable
    rw [getElem?_insert_if]
    split <;> simp
  have absent (name : String) (other : name ≠ "gemma@001") : gemmaTable.find name = none := by
    rw [listed, if_neg other]
  have lower : asciiLowercase "GEMMA@001" = "gemma@001" := by decide
  refine ⟨gemmaTable_built, ?_, ?_, lower⟩
  · unfold PriceTable.lookup
    rw [listed, if_pos rfl]
    rfl
  · have base : String.ofList ("gemma@001".toList.takeWhile (· ≠ '@')) = "gemma" := by
      decide
    have noRegion : stripRegion "gemma" = "gemma" := by decide
    have tried : gemmaTable.lookupStrippingVersions 5 "gemma" = none := by
      unfold PriceTable.lookupStrippingVersions
      rw [absent "gemma" (by decide), show rsplitOnce "gemma" '-' = none by decide]
    unfold PriceTable.lookup PriceTable.lookupDroppingProviders
    simp only [absent "GEMMA@001" (by decide), lower, base, noRegion, List.findSome?_cons, tried,
      List.findSome?_nil, show splitOnce "gemma@001" '/' = none by decide]

end Evald.Pricing
