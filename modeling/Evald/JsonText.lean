import Evald.Lib.Text
import Evald.Model

/-! # The JSON text of a value

The compact text a value is stored as.  Its quotes are those around keys and strings, and
those inside them, each behind a backslash; `afterQuotes_text` lists what follows each of
them, which is what a search for a quoted word sees.
-/

namespace Evald

open Lib

/-- `v.get(key)`. -/
def Json.get : Json → String → Option Json
  | .obj members, key => (members.find? (fun m => m.1 = key)).map Prod.snd
  | _, _ => none

/-- A character of a key or a string. -/
def escapeChar (c : Char) : List Char :=
  if c = '"' then ['\\', '"']
  else if c = '\\' then ['\\', '\\']
  else if c = '\n' then ['\\', 'n']
  else if c = '\r' then ['\\', 'r']
  else if c = '\t' then ['\\', 't']
  else if c.toNat = 8 then ['\\', 'b']
  else if c.toNat = 12 then ['\\', 'f']
  else if c.toNat < 32 then
    ['\\', 'u', '0', '0', hexDigit (c.toNat / 16), hexDigit (c.toNat % 16)]
  else [c]

def escaped (text : List Char) : List Char := text.flatMap escapeChar

def quoted (text : List Char) : List Char := '"' :: (escaped text ++ ['"'])

section Text

-- how a double is printed
variable (printFloat : ℚ → List Char)

mutual

def Json.text : Json → List Char
  | .null => "null".toList
  | .bool value => (if value then "true" else "false").toList
  | .int value => (toString value).toList
  | .float value => printFloat value
  | .str value => quoted value.toList
  | .arr items => '[' :: itemsText true items
  | .obj members => '{' :: membersText true members

/-- The items, up to the bracket. -/
def itemsText : Bool → List Json → List Char
  | _, [] => [']']
  | first, item :: items => (if first then [] else [',']) ++ (item.text ++ itemsText false items)

/-- The members, up to the brace. -/
def membersText : Bool → List (String × Json) → List Char
  | _, [] => ['}']
  | first, member :: members =>
    (if first then [] else [',']) ++ (memberText member ++ membersText false members)

def memberText : String × Json → List Char
  | (key, value) => quoted key.toList ++ ':' :: value.text

end

/-! ## Words and what follows them -/

mutual

/-- The keys and strings of a value, at any depth, in the order of the text. -/
def Json.words : Json → List (List Char)
  | .str value => [value.toList]
  | .arr items => itemsWords items
  | .obj members => membersWords members
  | _ => []

def itemsWords : List Json → List (List Char)
  | [] => []
  | item :: items => item.words ++ itemsWords items

def membersWords : List (String × Json) → List (List Char)
  | [] => []
  | member :: members => memberWords member ++ membersWords members

def memberWords : String × Json → List (List Char)
  | (key, value) => key.toList :: value.words

end

/-- A word and the text behind its closing quote. -/
abbrev Placed := List Char × List Char

mutual

/-- The words of a value, in front of a text. -/
def Json.placed : Json → List Char → List Placed
  | .str value, rest => [(value.toList, rest)]
  | .arr items, rest => itemsPlaced items rest
  | .obj members, rest => membersPlaced members rest
  | _, _ => []

def itemsPlaced : List Json → List Char → List Placed
  | [], _ => []
  | item :: items, rest =>
    item.placed (itemsText printFloat false items ++ rest) ++ itemsPlaced items rest

def membersPlaced : List (String × Json) → List Char → List Placed
  | [], _ => []
  | member :: members, rest =>
    memberPlaced member (membersText printFloat false members ++ rest) ++
      membersPlaced members rest

def memberPlaced : String × Json → List Char → List Placed
  | (key, value), rest => (key.toList, ':' :: (value.text printFloat ++ rest)) :: value.placed rest

end

variable {printFloat}

mutual

theorem Json.placed_words (rest : List Char) : ∀ value : Json,
    (value.placed printFloat rest).map Prod.fst = value.words
  | .null | .bool _ | .int _ | .float _ => rfl
  | .str _ => rfl
  | .arr items => itemsPlaced_words rest items
  | .obj members => membersPlaced_words rest members

theorem itemsPlaced_words (rest : List Char) : ∀ items : List Json,
    (itemsPlaced printFloat items rest).map Prod.fst = itemsWords items
  | [] => rfl
  | item :: items => by
    rw [itemsPlaced, List.map_append, item.placed_words, itemsPlaced_words rest items, itemsWords]

theorem membersPlaced_words (rest : List Char) : ∀ members : List (String × Json),
    (membersPlaced printFloat members rest).map Prod.fst = membersWords members
  | [] => rfl
  | member :: members => by
    rw [membersPlaced, List.map_append, memberPlaced_words _ member,
      membersPlaced_words rest members, membersWords]

theorem memberPlaced_words (rest : List Char) : ∀ member : String × Json,
    (memberPlaced printFloat member rest).map Prod.fst = memberWords member
  | (key, value) => by
    rw [memberPlaced, List.map_cons, value.placed_words, memberWords]

end

/-- A colon, a comma or a bracket: what stands behind a word. -/
def Delimited (rest : List Char) : Prop :=
  ∃ c tail, rest = c :: tail ∧ c ∈ [':', ',', ']', '}']

theorem delimited_items (items : List Json) (rest : List Char) :
    Delimited (itemsText printFloat false items ++ rest) := by
  cases items with
  | nil => exact ⟨']', _, rfl, by simp⟩
  | cons item items => exact ⟨',', _, rfl, by simp⟩

theorem delimited_members (members : List (String × Json)) (rest : List Char) :
    Delimited (membersText printFloat false members ++ rest) := by
  cases members with
  | nil => exact ⟨'}', _, rfl, by simp⟩
  | cons member members => exact ⟨',', _, rfl, by simp⟩

mutual

theorem Json.placed_delimited {rest : List Char} (delimited : Delimited rest) : ∀ value : Json,
    ∀ p ∈ value.placed printFloat rest, Delimited p.2
  | .null | .bool _ | .int _ | .float _ => fun _ listed => nomatch listed
  | .str value => fun p listed => by
    rw [Json.placed, List.mem_singleton] at listed
    rw [listed]
    exact delimited
  | .arr items => itemsPlaced_delimited rest items
  | .obj members => membersPlaced_delimited rest members

theorem itemsPlaced_delimited (rest : List Char) : ∀ items : List Json,
    ∀ p ∈ itemsPlaced printFloat items rest, Delimited p.2
  | [] => fun _ listed => nomatch listed
  | item :: items => fun p listed => by
    rw [itemsPlaced, List.mem_append] at listed
    cases listed with
    | inl here => exact item.placed_delimited (delimited_items items rest) p here
    | inr later => exact itemsPlaced_delimited rest items p later

theorem membersPlaced_delimited (rest : List Char) : ∀ members : List (String × Json),
    ∀ p ∈ membersPlaced printFloat members rest, Delimited p.2
  | [] => fun _ listed => nomatch listed
  | member :: members => fun p listed => by
    rw [membersPlaced, List.mem_append] at listed
    cases listed with
    | inl here => exact memberPlaced_delimited (delimited_members members rest) member p here
    | inr later => exact membersPlaced_delimited rest members p later

theorem memberPlaced_delimited {rest : List Char} (delimited : Delimited rest) :
    ∀ member : String × Json, ∀ p ∈ memberPlaced printFloat member rest, Delimited p.2
  | (key, value) => fun p listed => by
    rw [memberPlaced, List.mem_cons] at listed
    cases listed with
    | inl here =>
      rw [here]
      exact ⟨':', _, rfl, by simp⟩
    | inr later => exact value.placed_delimited delimited p later

end

/-! ## Quotes -/

/-- What follows each quote of a text. -/
def afterQuotes : List Char → List (List Char)
  | [] => []
  | c :: text => if c = '"' then text :: afterQuotes text else afterQuotes text

theorem afterQuotes_append_of_plain {plain : List Char} (unquoted : '"' ∉ plain)
    (text : List Char) : afterQuotes (plain ++ text) = afterQuotes text := by
  induction plain with
  | nil => rfl
  | cons c plain inductionHypothesis =>
    rw [List.mem_cons, not_or] at unquoted
    rw [List.cons_append, afterQuotes, if_neg (Ne.symm unquoted.1),
      inductionHypothesis unquoted.2]

/-- A quote is escaped, and nothing else is written with one. -/
theorem afterQuotes_escapeChar (c : Char) (text : List Char) :
    afterQuotes (escapeChar c ++ text) =
      if c = '"' then text :: afterQuotes text else afterQuotes text := by
  by_cases quote : c = '"'
  · rw [quote]
    rfl
  · rw [if_neg quote]
    apply afterQuotes_append_of_plain
    have digit {n : Nat} (small : n < 16) : '"' ≠ hexDigit n := by
      interval_cases n <;> decide
    unfold escapeChar
    rw [if_neg quote]
    split_ifs with _ _ _ _ _ _ control
    all_goals simp [Ne.symm quote]
    exact ⟨digit (by omega), digit (Nat.mod_lt _ (by omega))⟩

theorem afterQuotes_escaped (word text : List Char) :
    afterQuotes (escaped word ++ text) =
      (afterQuotes word).map (fun rest => escaped rest ++ text) ++ afterQuotes text := by
  induction word with
  | nil => rfl
  | cons c word inductionHypothesis =>
    rw [escaped, List.flatMap_cons, List.append_assoc, afterQuotes_escapeChar]
    change (if c = '"' then (escaped word ++ text) :: afterQuotes (escaped word ++ text)
      else afterQuotes (escaped word ++ text)) = _
    rw [inductionHypothesis, afterQuotes]
    by_cases quote : c = '"'
    · rw [if_pos quote, if_pos quote]
      rfl
    · rw [if_neg quote, if_neg quote]

/-- What follows the quotes of a word: the word from its start, from behind each of its own
quotes, and what is behind it. -/
def Placed.seen (p : Placed) : List (List Char) :=
  (p.1 :: afterQuotes p.1).map (fun rest => escaped rest ++ '"' :: p.2) ++ [p.2]

theorem afterQuotes_quoted (word text : List Char) :
    afterQuotes (quoted word ++ text) = Placed.seen (word, text) ++ afterQuotes text := by
  unfold quoted Placed.seen
  rw [List.cons_append, List.append_assoc, List.singleton_append, afterQuotes, if_pos rfl,
    afterQuotes_escaped, afterQuotes, if_pos rfl]
  simp

variable (printFloat) in
/-- A double is printed in digits, with a point, a sign or an exponent. -/
def PlainFloats : Prop :=
  ∀ value, ∀ c ∈ printFloat value, c.isDigit = true ∨ c ∈ ['.', '-', '+', 'e', 'E']

theorem PlainFloats.unquoted (plain : PlainFloats printFloat) (value : ℚ) :
    '"' ∉ printFloat value := by
  intro listed
  exact absurd (plain value '"' listed) (by decide)

/-- A whole number is written in digits, perhaps behind a minus. -/
theorem toList_toString_int (value : ℤ) : (toString value).toList =
    (if value < 0 then ['-'] else []) ++ Nat.toDigits 10 value.natAbs := by
  cases value with
  | ofNat n =>
    have positive : ¬ Int.ofNat n < 0 := by simp
    rw [if_neg positive]
    show (Nat.repr n).toList = _
    simp [Nat.repr]
  | negSucc n =>
    rw [if_pos (Int.negSucc_lt_zero n)]
    show ("-" ++ Nat.repr (n + 1)).toList = _
    simp [Nat.repr, String.toList_append]

theorem toString_int_unquoted (value : ℤ) : '"' ∉ (toString value).toList := by
  intro listed
  rw [toList_toString_int, List.mem_append] at listed
  cases listed with
  | inl sign => split at sign <;> simp at sign
  | inr digit => exact absurd (Nat.isDigit_of_mem_toDigits (by decide) (by decide) digit) (by decide)

mutual

theorem Json.afterQuotes_text (plain : PlainFloats printFloat) (rest : List Char) : ∀ value : Json,
    afterQuotes (value.text printFloat ++ rest) =
      (value.placed printFloat rest).flatMap Placed.seen ++ afterQuotes rest
  | .null => afterQuotes_append_of_plain (show '"' ∉ "null".toList by decide) rest
  | .bool true => afterQuotes_append_of_plain (show '"' ∉ "true".toList by decide) rest
  | .bool false => afterQuotes_append_of_plain (show '"' ∉ "false".toList by decide) rest
  | .int value => afterQuotes_append_of_plain (toString_int_unquoted value) rest
  | .float value => afterQuotes_append_of_plain (plain.unquoted value) rest
  | .str value => by
    rw [Json.text, afterQuotes_quoted, Json.placed, List.flatMap_singleton]
  | .arr items => by
    rw [Json.text, List.cons_append, afterQuotes, if_neg (by decide), itemsText_afterQuotes plain,
      Json.placed]
  | .obj members => by
    rw [Json.text, List.cons_append, afterQuotes, if_neg (by decide), membersText_afterQuotes plain,
      Json.placed]

theorem itemsText_afterQuotes (plain : PlainFloats printFloat) (rest : List Char) (first : Bool) :
    ∀ items : List Json,
    afterQuotes (itemsText printFloat first items ++ rest) =
      (itemsPlaced printFloat items rest).flatMap Placed.seen ++ afterQuotes rest
  | [] => afterQuotes_append_of_plain (show '"' ∉ [']'] by decide) rest
  | item :: items => by
    rw [itemsText, List.append_assoc, List.append_assoc, afterQuotes_append_of_plain,
      item.afterQuotes_text plain, itemsText_afterQuotes plain rest false items, itemsPlaced,
      List.flatMap_append, List.append_assoc]
    cases first <;> decide

theorem membersText_afterQuotes (plain : PlainFloats printFloat) (rest : List Char)
    (first : Bool) :
    ∀ members : List (String × Json),
    afterQuotes (membersText printFloat first members ++ rest) =
      (membersPlaced printFloat members rest).flatMap Placed.seen ++ afterQuotes rest
  | [] => afterQuotes_append_of_plain (show '"' ∉ ['}'] by decide) rest
  | member :: members => by
    rw [membersText, List.append_assoc, List.append_assoc, afterQuotes_append_of_plain,
      memberText_afterQuotes plain _ member, membersText_afterQuotes plain rest false members, membersPlaced,
      List.flatMap_append, List.append_assoc]
    cases first <;> decide

theorem memberText_afterQuotes (plain : PlainFloats printFloat) (rest : List Char) : ∀ member : String × Json,
    afterQuotes (memberText printFloat member ++ rest) =
      (memberPlaced printFloat member rest).flatMap Placed.seen ++ afterQuotes rest
  | (key, value) => by
    rw [memberText, List.append_assoc, afterQuotes_quoted, List.cons_append, afterQuotes,
      if_neg (by decide), value.afterQuotes_text plain, memberPlaced, List.flatMap_cons,
      List.append_assoc]

end

/-! ## Searching for a word that needs no escapes -/

def PlainWord (word : List Char) : Prop := ∀ c ∈ word, escapeChar c = [c]

instance (word : List Char) : Decidable (PlainWord word) :=
  inferInstanceAs (Decidable (∀ c ∈ word, escapeChar c = [c]))

theorem escapeChar_cases (c : Char) :
    (escapeChar c = [c] ∧ c ≠ '"' ∧ c ≠ '\\') ∨ ∃ d rest, escapeChar c = '\\' :: d :: rest := by
  by_cases quote : c = '"'
  · exact .inr ⟨'"', [], by rw [quote]; rfl⟩
  by_cases backslash : c = '\\'
  · exact .inr ⟨'\\', [], by rw [backslash]; rfl⟩
  unfold escapeChar
  rw [if_neg quote, if_neg backslash]
  split_ifs
  all_goals simp [quote, backslash]

/-- A plain word starts an escaped text where it starts the text. -/
theorem prefix_escaped_iff {word : List Char} (plain : PlainWord word) (text rest : List Char) :
    word <+: escaped text ++ '"' :: rest ↔ word <+: text := by
  induction word generalizing text with
  | nil => simp
  | cons p word inductionHypothesis =>
    obtain ⟨here, later⟩ := List.forall_mem_cons.mp plain
    obtain ⟨-, notQuote, notBackslash⟩ | ⟨d, more, escapes⟩ := escapeChar_cases p
    · cases text with
      | nil =>
        show p :: word <+: '"' :: rest ↔ _
        simp [notQuote]
      | cons c text =>
        rw [escaped, List.flatMap_cons, List.append_assoc]
        obtain ⟨same, -⟩ | ⟨d, more, escapes⟩ := escapeChar_cases c
        · rw [same, List.singleton_append, List.cons_prefix_cons, List.cons_prefix_cons]
          exact and_congr_right (fun _ => inductionHypothesis later text)
        · have differ : p ≠ c := by
            intro same
            rw [← same, here] at escapes
            cases escapes
          rw [escapes, List.cons_append, List.cons_prefix_cons, List.cons_prefix_cons]
          simp [notBackslash, differ]
    · rw [here] at escapes
      cases escapes

/-- A plain word up to its closing quote is an escaped text where it is the whole text. -/
theorem escaped_eq_iff {word : List Char} (plain : PlainWord word) (text rest after : List Char) :
    escaped text ++ '"' :: rest = word ++ '"' :: after ↔ text = word ∧ rest = after := by
  induction word generalizing text with
  | nil =>
    cases text with
    | nil => simp [escaped]
    | cons c text =>
      rw [escaped, List.flatMap_cons, List.append_assoc]
      obtain ⟨same, notQuote, -⟩ | ⟨d, more, escapes⟩ := escapeChar_cases c
      · simp [same, notQuote]
      · simp [escapes]
  | cons p word inductionHypothesis =>
    obtain ⟨here, later⟩ := List.forall_mem_cons.mp plain
    obtain ⟨-, notQuote, notBackslash⟩ | ⟨d, more, escapes⟩ := escapeChar_cases p
    · cases text with
      | nil => simp [escaped, Ne.symm notQuote]
      | cons c text =>
        rw [escaped, List.flatMap_cons, List.append_assoc]
        obtain ⟨same, -⟩ | ⟨d, more, escapes⟩ := escapeChar_cases c
        · rw [same, List.singleton_append, List.cons_append, List.cons.injEq, List.cons.injEq]
          rw [← escaped, inductionHypothesis later text, and_assoc]
        · have differ : c ≠ p := by
            intro same
            rw [same, here] at escapes
            cases escapes
          rw [escapes, List.cons_append, List.cons_append, List.cons_append, List.cons.injEq, List.cons.injEq]
          simp [Ne.symm notBackslash, differ]
    · rw [here] at escapes
      cases escapes

end Text

end Evald
