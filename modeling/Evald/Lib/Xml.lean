import Evald.Lib.Digits

/-! # XML 1.0

A reader for documents of elements, attributes and text: it takes the line ends, references
and attribute values as XML does, and refuses what is not well-formed.  Comments, processing
instructions, character data sections and document types are not read.  What is printed of
a tree reads back as the tree, with the line ends of its texts (`readDocument_printDocument`).
-/

namespace Evald.Lib.Xml

abbrev Text := List Char

/-! ## Characters -/

/-- Is it allowed in a document? -/
def isChar (c : Char) : Bool :=
  let n := c.toNat
  n = 0x9 || n = 0xA || n = 0xD || (0x20 ≤ n && n ≤ 0xD7FF) || (0xE000 ≤ n && n ≤ 0xFFFD) ||
    (0x10000 ≤ n && n ≤ 0x10FFFF)

def isSpace (c : Char) : Bool := c = ' ' || c = '\t' || c = '\n' || c = '\r'

def isNameStart (c : Char) : Bool :=
  let n := c.toNat
  c = ':' || c = '_' || (0x41 ≤ n && n ≤ 0x5A) || (0x61 ≤ n && n ≤ 0x7A) ||
    (0xC0 ≤ n && n ≤ 0xD6) || (0xD8 ≤ n && n ≤ 0xF6) || (0xF8 ≤ n && n ≤ 0x2FF) ||
    (0x370 ≤ n && n ≤ 0x37D) || (0x37F ≤ n && n ≤ 0x1FFF) || (0x200C ≤ n && n ≤ 0x200D) ||
    (0x2070 ≤ n && n ≤ 0x218F) || (0x2C00 ≤ n && n ≤ 0x2FEF) || (0x3001 ≤ n && n ≤ 0xD7FF) ||
    (0xF900 ≤ n && n ≤ 0xFDCF) || (0xFDF0 ≤ n && n ≤ 0xFFFD) || (0x10000 ≤ n && n ≤ 0xEFFFF)

def isNameChar (c : Char) : Bool :=
  let n := c.toNat
  isNameStart c || c = '-' || c = '.' || (0x30 ≤ n && n ≤ 0x39) || n = 0xB7 ||
    (0x300 ≤ n && n ≤ 0x36F) || (0x203F ≤ n && n ≤ 0x2040)

def isName : Text → Bool
  | [] => false
  | c :: cs => isNameStart c && cs.all isNameChar

/-- Every line end becomes one newline, before anything is read. -/
def normalizeLineEnds : Text → Text
  | [] => []
  | '\r' :: '\n' :: rest => '\n' :: normalizeLineEnds rest
  | '\r' :: rest => '\n' :: normalizeLineEnds rest
  | c :: rest => c :: normalizeLineEnds rest

/-! ## References -/

def digitValue (base : Nat) (c : Char) : Option Nat :=
  let n := c.toNat
  if 0x30 ≤ n ∧ n ≤ 0x39 then some (n - 0x30)
  else if base = 16 ∧ 0x41 ≤ n ∧ n ≤ 0x46 then some (n - 0x37)
  else if base = 16 ∧ 0x61 ≤ n ∧ n ≤ 0x66 then some (n - 0x57)
  else none

def number (base : Nat) (digits : Text) : Option Nat :=
  if digits.isEmpty then none
  else digits.foldlM (fun n c => (digitValue base c).map (fun d => n * base + d)) 0

/-- The character of a number, if a document may have it. -/
def charOf (n : Nat) : Option Char :=
  if n.isValidChar ∧ isChar (Char.ofNat n) = true then some (Char.ofNat n) else none

/-- What stands between `&` and `;`. -/
def reference : Text → Option Char
  | '#' :: 'x' :: digits => (number 16 digits).bind charOf
  | '#' :: digits => (number 10 digits).bind charOf
  | ['l', 't'] => some '<'
  | ['g', 't'] => some '>'
  | ['a', 'm', 'p'] => some '&'
  | ['a', 'p', 'o', 's'] => some '\''
  | ['q', 'u', 'o', 't'] => some '"'
  | _ => none

/-- References are replaced by their characters; `name` is what was read of one. -/
def expand (literal : Char → Option Char) : Option Text → Text → Option Text
  | none, [] => some []
  | some _, [] => none
  | none, '&' :: rest => expand literal (some []) rest
  | none, c :: rest => (literal c).bind (fun c => (expand literal none rest).map (c :: ·))
  | some name, ';' :: rest =>
    (reference name).bind (fun c => (expand literal none rest).map (c :: ·))
  | some name, c :: rest => expand literal (some (name ++ [c])) rest

/-- In a text. -/
def literalText (c : Char) : Option Char := if isChar c && c ≠ '<' then some c else none

/-- In the value of an attribute, where white space is a blank. -/
def literalValue (c : Char) : Option Char :=
  if isSpace c then some ' ' else if isChar c && c ≠ '<' then some c else none

def readText (raw : Text) : Option Text :=
  if raw.tails.any (fun rest => [']', ']', '>'].isPrefixOf rest) then none
  else expand literalText none raw

def readValue (raw : Text) : Option Text := expand literalValue none raw

/-! ## Tags -/

/-- An attribute and what comes behind it. -/
def readAttribute (cs : Text) : Option ((Text × Text) × Text) :=
  let name := cs.takeWhile isNameChar
  if isName name then
    match (cs.dropWhile isNameChar).dropWhile isSpace with
    | '=' :: rest =>
      match rest.dropWhile isSpace with
      | quote :: rest =>
        if quote = '"' ∨ quote = '\'' then
          match rest.dropWhile (fun c => c ≠ quote) with
          | _ :: after =>
            (readValue (rest.takeWhile (fun c => c ≠ quote))).map (fun value => ((name, value), after))
          | [] => none
        else none
      | [] => none
    | _ => none
  else none

/-- Attributes, each behind white space, up to the end of the tag. -/
def readAttributes : Nat → Text → Option (List (Text × Text) × Text)
  | 0, _ => none
  | fuel + 1, cs =>
    match cs.dropWhile isSpace with
    | '>' :: rest => some ([], '>' :: rest)
    | '/' :: rest => some ([], '/' :: rest)
    | start =>
      if cs.head?.any isSpace then
        (readAttribute start).bind (fun first =>
          (readAttributes fuel first.2).map (fun more => (first.1 :: more.1, more.2)))
      else none

structure Tag where
  name : Text
  attributes : List (Text × Text)
  /-- It ends in `/>`. -/
  empty : Bool

/-- The tag behind `<`. -/
def readTag (cs : Text) : Option (Tag × Text) := do
  let name := cs.takeWhile isNameChar
  let (attributes, rest) ← readAttributes (cs.length + 1) (cs.dropWhile isNameChar)
  if isName name && (attributes.map Prod.fst).Nodup then
    match rest with
    | '>' :: rest => some ({ name, attributes, empty := false }, rest)
    | '/' :: '>' :: rest => some ({ name, attributes, empty := true }, rest)
    | _ => none
  else none

/-- The end tag of an element. -/
def readEndTag (name : Text) : Text → Option Text
  | '<' :: '/' :: rest =>
    if rest.takeWhile isNameChar = name then
      match (rest.dropWhile isNameChar).dropWhile isSpace with
      | '>' :: rest => some rest
      | _ => none
    else none
  | _ => none

/-! ## Documents -/

inductive Node where
  | text (chars : Text)
  | empty (name : Text) (attributes : List (Text × Text))
  | element (name : Text) (attributes : List (Text × Text)) (content : List Node)

/-- The element behind `<`. -/
def readElement (content : Text → Option (List Node × Text)) (cs : Text) : Option (Node × Text) := do
  let (tag, rest) ← readTag cs
  if tag.empty then pure (.empty tag.name tag.attributes, rest)
  else
    let (nodes, rest) ← content rest
    let rest ← readEndTag tag.name rest
    pure (.element tag.name tag.attributes nodes, rest)

/-- Texts and elements, up to an end tag. -/
def readNodes : Nat → Text → Option (List Node × Text)
  | 0, _ => none
  | fuel + 1, cs =>
    match cs with
    | [] => some ([], [])
    | '<' :: '/' :: rest => some ([], '<' :: '/' :: rest)
    | '<' :: rest =>
      (readElement (readNodes fuel) rest).bind (fun first =>
        (readNodes fuel first.2).map (fun more => (first.1 :: more.1, more.2)))
    | cs =>
      (readText (cs.takeWhile (fun c => c ≠ '<'))).bind (fun chars =>
        (readNodes fuel (cs.dropWhile (fun c => c ≠ '<'))).map (fun more =>
          (.text chars :: more.1, more.2)))

/-- The declaration of the version and the encoding. -/
def declaration : Text := "<?xml version=\"1.0\" encoding=\"UTF-8\"?>".toList

/-- The root element of a document. -/
def readDocument (cs : Text) : Option Node := do
  let cs := normalizeLineEnds cs
  let body := if declaration.isPrefixOf cs then cs.drop declaration.length else cs
  match body.dropWhile isSpace with
  | '<' :: rest => do
    let (root, rest) ← readElement (readNodes (cs.length + 1)) rest
    if rest.all isSpace then pure root else none
  | _ => none

/-! ## Printing -/

def escapeText (c : Char) : Text :=
  if c = '&' then "&amp;".toList
  else if c = '<' then "&lt;".toList
  else if c = '>' then "&gt;".toList
  else [c]

/-- White space is kept as references. -/
def escapeValue (c : Char) : Text :=
  if c = '&' then "&amp;".toList
  else if c = '<' then "&lt;".toList
  else if c = '>' then "&gt;".toList
  else if c = '"' then "&quot;".toList
  else if c = '\'' then "&apos;".toList
  else if c = '\n' then "&#10;".toList
  else if c = '\r' then "&#13;".toList
  else if c = '\t' then "&#9;".toList
  else [c]

def printAttribute (a : Text × Text) : Text :=
  ' ' :: (a.1 ++ '=' :: '"' :: (a.2.flatMap escapeValue ++ ['"']))

def printTag (name : Text) (attributes : List (Text × Text)) : Text :=
  '<' :: (name ++ attributes.flatMap printAttribute)

mutual

def Node.print : Node → Text
  | .text chars => chars.flatMap escapeText
  | .empty name attributes => printTag name attributes ++ ['/', '>']
  | .element name attributes content =>
    printTag name attributes ++ '>' :: (printNodes content ++ '<' :: '/' :: (name ++ ['>']))

def printNodes : List Node → Text
  | [] => []
  | node :: nodes => node.print ++ printNodes nodes

end

/-- The root behind the declaration, each on a line. -/
def printDocument (root : Node) : Text := declaration ++ '\n' :: (root.print ++ ['\n'])

/-! ## What is printed of characters -/

theorem escapeText_plain (c : Char) : '<' ∉ escapeText c ∧ '>' ∉ escapeText c := by
  unfold escapeText
  split_ifs with amp lt gt
  · simp
  · simp
  · simp
  · simp [Ne.symm lt, Ne.symm gt]

theorem escapeValue_plain (c : Char) : '"' ∉ escapeValue c ∧ '\r' ∉ escapeValue c := by
  unfold escapeValue
  split_ifs with amp lt gt quot apos newline ret tab
  · simp
  · simp
  · simp
  · simp
  · simp
  · simp
  · simp
  · simp
  · simp [Ne.symm quot, Ne.symm ret]

theorem escapeText_ne_nil (c : Char) : escapeText c ≠ [] := by
  unfold escapeText
  split_ifs <;> simp

theorem not_mem_flatMap {x : Char} {escape : Char → Text} (plain : ∀ c, x ∉ escape c) (chars : Text) :
    x ∉ chars.flatMap escape := by
  intro member
  obtain ⟨c, -, here⟩ := List.mem_flatMap.mp member
  exact plain c here

/-! ## Reading what is printed -/

/-- A character is read back from its escape. -/
theorem expand_escapeText {c : Char} (allowed : isChar c = true) (rest : Text) :
    expand literalText none (escapeText c ++ rest) =
      (expand literalText none rest).map (c :: ·) := by
  unfold escapeText
  split_ifs with amp lt gt
  · subst amp
    rfl
  · subst lt
    rfl
  · subst gt
    rfl
  · have literal : literalText c = some c := by simp [literalText, allowed, lt]
    rw [List.singleton_append, expand, literal]
    · rfl
    · exact amp

theorem expand_escapeValue {c : Char} (allowed : isChar c = true) (rest : Text) :
    expand literalValue none (escapeValue c ++ rest) =
      (expand literalValue none rest).map (c :: ·) := by
  unfold escapeValue
  split_ifs with amp lt gt quot apos newline ret tab
  · subst amp
    rfl
  · subst lt
    rfl
  · subst gt
    rfl
  · subst quot
    rfl
  · subst apos
    rfl
  · subst newline
    rfl
  · subst ret
    rfl
  · subst tab
    rfl
  · by_cases space : c = ' '
    · subst space
      rfl
    · have literal : literalValue c = some c := by
        simp [literalValue, isSpace, allowed, lt, space, newline, ret, tab]
      rw [List.singleton_append, expand, literal]
      · rfl
      · exact amp

theorem expand_flatMap {literal : Char → Option Char} {escape : Char → Text} {chars : Text}
    (step : ∀ c ∈ chars, ∀ rest, expand literal none (escape c ++ rest) =
      (expand literal none rest).map (c :: ·)) :
    expand literal none (chars.flatMap escape) = some chars := by
  induction chars with
  | nil => rfl
  | cons c chars inductionHypothesis =>
    rw [List.forall_mem_cons] at step
    rw [List.flatMap_cons, step.1, inductionHypothesis step.2, Option.map_some]

theorem readText_escaped {chars : Text} (allowed : ∀ c ∈ chars, isChar c = true) :
    readText (chars.flatMap escapeText) = some chars := by
  have unmarked : (chars.flatMap escapeText).tails.any
      (fun rest => [']', ']', '>'].isPrefixOf rest) = false := by
    rw [Bool.eq_false_iff]
    intro found
    obtain ⟨rest, tail, starts⟩ := List.any_eq_true.mp found
    rw [List.mem_tails] at tail
    have inside : '>' ∈ chars.flatMap escapeText :=
      tail.subset ((List.isPrefixOf_iff_prefix.mp starts).subset (by simp))
    exact not_mem_flatMap (fun c => (escapeText_plain c).2) chars inside
  rw [readText, unmarked]
  exact expand_flatMap (fun c member => expand_escapeText (allowed c member))

theorem readValue_escaped {chars : Text} (allowed : ∀ c ∈ chars, isChar c = true) :
    readValue (chars.flatMap escapeValue) = some chars :=
  expand_flatMap (fun c member => expand_escapeValue (allowed c member))

/-- Characters that pass, up to one that does not. -/
theorem takeWhile_stop {p : Char → Bool} {chars : Text} {c : Char} (rest : Text)
    (all : ∀ x ∈ chars, p x = true) (stop : p c = false) : (chars ++ c :: rest).takeWhile p = chars ∧
      (chars ++ c :: rest).dropWhile p = c :: rest := by
  constructor
  · rw [List.takeWhile_append_of_pos all, List.takeWhile_cons_of_neg (by simp [stop]), List.append_nil]
  · rw [List.dropWhile_append_of_pos all, List.dropWhile_cons_of_neg (by simp [stop])]

/-! ## Tags -/

theorem isName_cases {name : Text} (named : isName name = true) :
    ∃ c cs, name = c :: cs ∧ isNameStart c = true ∧ ∀ x ∈ name, isNameChar x = true := by
  cases name with
  | nil => cases named
  | cons c cs =>
    rw [isName, Bool.and_eq_true, List.all_eq_true] at named
    refine ⟨c, cs, rfl, named.1, ?_⟩
    intro x member
    cases List.mem_cons.mp member with
    | inl first =>
      rw [first, isNameChar, named.1]
      rfl
    | inr later => exact named.2 x later

/-- Attributes that can be printed, each name once. -/
structure AttributesValid (attributes : List (Text × Text)) : Prop where
  names : ∀ a ∈ attributes, isName a.1 = true
  values : ∀ a ∈ attributes, ∀ c ∈ a.2, isChar c = true
  once : (attributes.map Prod.fst).Nodup

/-- The end of a tag. -/
def EndsTag (rest : Text) : Prop := ∃ more, rest = '>' :: more ∨ rest = '/' :: more

theorem readAttributes_end {fuel : Nat} {rest : Text} (ends : EndsTag rest) :
    readAttributes (fuel + 1) rest = some ([], rest) := by
  obtain ⟨more, rfl | rfl⟩ := ends
  · rfl
  · rfl

theorem readAttribute_print {name value : Text} (rest : Text) (named : isName name = true)
    (allowed : ∀ c ∈ value, isChar c = true) :
    readAttribute (name ++ '=' :: '"' :: (value.flatMap escapeValue ++ '"' :: rest)) =
      some ((name, value), rest) := by
  obtain ⟨_, _, _, _, chars⟩ := isName_cases named
  have quoted : ∀ x ∈ value.flatMap escapeValue, decide (x ≠ '"') = true := by
    intro x member
    rw [decide_eq_true_eq]
    intro same
    rw [same] at member
    exact not_mem_flatMap (fun c => (escapeValue_plain c).1) value member
  have stop : isNameChar '=' = false := by decide
  obtain ⟨nameRead, nameRest⟩ :=
    takeWhile_stop ('"' :: (value.flatMap escapeValue ++ '"' :: rest)) chars stop
  obtain ⟨valueRead, valueRest⟩ := takeWhile_stop (p := fun x => decide (x ≠ '"')) (c := '"')
    rest quoted (by decide)
  have equals : isSpace '=' = false := by decide
  have quote : isSpace '"' = false := by decide
  rw [readAttribute]
  simp only [nameRead, nameRest, named, if_true, List.dropWhile_cons, equals, quote]
  simp only [List.dropWhile_cons, quote, Bool.false_eq_true, if_false, true_or, if_true]
  simp only [valueRest, valueRead]
  rw [readValue_escaped allowed, Option.map_some]

/-- One attribute is read, and then the others. -/
theorem readAttributes_cons {fuel : Nat} {a : Text × Text} {rest : Text} (named : isName a.1 = true)
    (allowed : ∀ c ∈ a.2, isChar c = true) :
    readAttributes (fuel + 1) (printAttribute a ++ rest) =
      (readAttributes fuel rest).map (fun more => (a :: more.1, more.2)) := by
  obtain ⟨name, value⟩ := a
  obtain ⟨c, cs, spelled, start, -⟩ := isName_cases named
  have other (x : Char) (not : isNameStart x = false) : c ≠ x := by
    intro same
    rw [same, not] at start
    cases start
  have notSpace : isSpace c = false := by
    simp [isSpace, other ' ' (by decide), other '\t' (by decide), other '\n' (by decide),
      other '\r' (by decide)]
  have printed : printAttribute (name, value) ++ rest =
      ' ' :: (name ++ '=' :: '"' :: (value.flatMap escapeValue ++ '"' :: rest)) := by
    simp [printAttribute]
  have read := readAttribute_print rest named allowed
  have space : isSpace ' ' = true := by decide
  simp only at spelled read
  rw [printed, readAttributes]
  rw [spelled, List.cons_append] at read ⊢
  simp only [List.dropWhile_cons, space, if_true, notSpace, Bool.false_eq_true, if_false,
    List.head?_cons, Option.any_some]
  split
  · next same => exact absurd (List.cons.inj same).1 (other '>' (by decide))
  · next same => exact absurd (List.cons.inj same).1 (other '/' (by decide))
  · rw [read, Option.bind_some]

theorem readAttributes_print {fuel : Nat} {attributes : List (Text × Text)} {rest : Text}
    (named : ∀ a ∈ attributes, isName a.1 = true)
    (allowed : ∀ a ∈ attributes, ∀ c ∈ a.2, isChar c = true) (ends : EndsTag rest)
    (enough : attributes.length < fuel) :
    readAttributes fuel (attributes.flatMap printAttribute ++ rest) = some (attributes, rest) := by
  induction attributes generalizing fuel with
  | nil =>
    obtain ⟨fuel, rfl⟩ : ∃ k, fuel = k + 1 := ⟨fuel - 1, by omega⟩
    exact readAttributes_end ends
  | cons a attributes inductionHypothesis =>
    obtain ⟨fuel, rfl⟩ : ∃ k, fuel = k + 1 := ⟨fuel - 1, by omega⟩
    rw [List.forall_mem_cons] at named allowed
    rw [List.length_cons] at enough
    rw [List.flatMap_cons, List.append_assoc, readAttributes_cons named.1 allowed.1,
      inductionHypothesis named.2 allowed.2 (by omega)]
    rfl

theorem length_le_flatMap (attributes : List (Text × Text)) :
    attributes.length ≤ (attributes.flatMap printAttribute).length := by
  induction attributes with
  | nil => exact Nat.le_refl _
  | cons a attributes inductionHypothesis =>
    have one : 0 < (printAttribute a).length := by simp [printAttribute]
    rw [List.flatMap_cons, List.length_append, List.length_cons]
    omega

/-- What comes behind a name in a tag is no part of it. -/
theorem name_stops (attributes : List (Text × Text)) {rest : Text} (ends : EndsTag rest) :
    ∃ c more, attributes.flatMap printAttribute ++ rest = c :: more ∧ isNameChar c = false := by
  cases attributes with
  | nil =>
    obtain ⟨more, rfl | rfl⟩ := ends
    · exact ⟨'>', more, rfl, by decide⟩
    · exact ⟨'/', more, rfl, by decide⟩
  | cons a attributes =>
    rw [List.flatMap_cons, printAttribute, List.append_assoc, List.cons_append]
    exact ⟨' ', _, rfl, by decide⟩

theorem readTag_print {name : Text} {attributes : List (Text × Text)} (named : isName name = true)
    (valid : AttributesValid attributes) (rest : Text) :
    readTag (name ++ attributes.flatMap printAttribute ++ '>' :: rest) =
        some ({ name, attributes, empty := false }, rest) ∧
      readTag (name ++ attributes.flatMap printAttribute ++ '/' :: '>' :: rest) =
        some ({ name, attributes, empty := true }, rest) := by
  obtain ⟨_, _, _, _, chars⟩ := isName_cases named
  have parts {rest : Text} (ends : EndsTag rest) :
      (name ++ attributes.flatMap printAttribute ++ rest).takeWhile isNameChar = name ∧
        readAttributes ((name ++ attributes.flatMap printAttribute ++ rest).length + 1)
            ((name ++ attributes.flatMap printAttribute ++ rest).dropWhile isNameChar) =
          some (attributes, rest) := by
    obtain ⟨c, more, behind, stop⟩ := name_stops attributes ends
    have long := length_le_flatMap attributes
    rw [List.append_assoc, behind]
    obtain ⟨read, left⟩ := takeWhile_stop more chars stop
    rw [read, left, ← behind]
    refine ⟨rfl, readAttributes_print valid.names valid.values ends ?_⟩
    rw [List.length_append, List.length_append]
    omega
  obtain ⟨openName, openRead⟩ := parts ⟨rest, .inl rfl⟩
  obtain ⟨emptyName, emptyRead⟩ := parts ⟨'>' :: rest, .inr rfl⟩
  constructor
  · rw [readTag]
    simp only [openName, openRead, Option.bind_eq_bind, Option.bind_some, named, Bool.true_and,
      decide_eq_true valid.once, if_true]
  · rw [readTag]
    simp only [emptyName, emptyRead, Option.bind_eq_bind, Option.bind_some, named, Bool.true_and,
      decide_eq_true valid.once, if_true]

theorem readEndTag_print {name : Text} (named : isName name = true) (rest : Text) :
    readEndTag name ('<' :: '/' :: (name ++ '>' :: rest)) = some rest := by
  obtain ⟨_, _, _, _, chars⟩ := isName_cases named
  have stop : isNameChar '>' = false := by decide
  obtain ⟨read, left⟩ := takeWhile_stop rest chars stop
  have space : isSpace '>' = false := by decide
  rw [readEndTag, read, left, if_pos rfl, List.dropWhile_cons_of_neg (by simp [space])]
  rfl

/-! ## Trees -/

def Node.isText : Node → Bool
  | .text _ => true
  | _ => false

mutual

/-- A node that can be printed. -/
def Node.Valid : Node → Prop
  | .text chars => chars ≠ [] ∧ ∀ c ∈ chars, isChar c = true
  | .empty name attributes => isName name = true ∧ AttributesValid attributes
  | .element name attributes content =>
    isName name = true ∧ AttributesValid attributes ∧ NodesValid content

/-- Texts are apart from each other. -/
def NodesValid : List Node → Prop
  | [] => True
  | node :: nodes =>
    node.Valid ∧ (node.isText = true → nodes.head?.any Node.isText = false) ∧ NodesValid nodes

end

/-- Behind some nodes: the end of the input or of an element. -/
def EndsContent (rest : Text) : Prop := rest = [] ∨ ∃ more, rest = '<' :: '/' :: more

theorem print_of_not_text (node : Node) (not : node.isText = false) :
    ∃ more, node.print = '<' :: more := by
  cases node with
  | text chars => cases not
  | empty name attributes =>
    rw [Node.print, printTag, List.cons_append]
    exact ⟨_, rfl⟩
  | element name attributes content =>
    rw [Node.print, printTag, List.cons_append]
    exact ⟨_, rfl⟩

/-- Behind a text stands markup, or nothing. -/
theorem behind_text {nodes : List Node} {rest : Text}
    (apart : nodes.head?.any Node.isText = false) (ends : EndsContent rest) :
    printNodes nodes ++ rest = [] ∨ ∃ more, printNodes nodes ++ rest = '<' :: more := by
  cases nodes with
  | nil =>
    rw [printNodes, List.nil_append]
    exact ends.imp_right fun ⟨more, here⟩ => ⟨_, here⟩
  | cons node nodes =>
    obtain ⟨more, printed⟩ := print_of_not_text node (by simpa using apart)
    rw [printNodes, printed, List.cons_append, List.cons_append]
    exact .inr ⟨_, rfl⟩

theorem readElement_empty {name : Text} {attributes : List (Text × Text)} (named : isName name = true)
    (valid : AttributesValid attributes) (content : Text → Option (List Node × Text)) (rest : Text) :
    readElement content (name ++ attributes.flatMap printAttribute ++ '/' :: '>' :: rest) =
      some (.empty name attributes, rest) := by
  rw [readElement, (readTag_print named valid rest).2]
  rfl

theorem readElement_content {name : Text} {attributes : List (Text × Text)} {nodes : List Node}
    {printed rest : Text} {content : Text → Option (List Node × Text)} (named : isName name = true)
    (valid : AttributesValid attributes)
    (read : content (printed ++ '<' :: '/' :: (name ++ '>' :: rest)) =
      some (nodes, '<' :: '/' :: (name ++ '>' :: rest))) :
    readElement content (name ++ attributes.flatMap printAttribute ++
        '>' :: (printed ++ '<' :: '/' :: (name ++ '>' :: rest))) =
      some (.element name attributes nodes, rest) := by
  rw [readElement, (readTag_print named valid _).1]
  simp only [Option.bind_eq_bind, Option.bind_some, Bool.false_eq_true, if_false, read,
    readEndTag_print named rest, Option.pure_def]

theorem readNodes_ends {fuel : Nat} {rest : Text} (ends : EndsContent rest) :
    readNodes (fuel + 1) rest = some ([], rest) := by
  obtain rfl | ⟨more, rfl⟩ := ends
  · rfl
  · rfl

theorem length_print_pos {node : Node} (valid : node.Valid) : 0 < node.print.length := by
  cases node with
  | text chars =>
    rw [Node.Valid] at valid
    obtain ⟨c, cs, rfl⟩ := List.exists_cons_of_ne_nil valid.1
    have first := List.length_pos_of_ne_nil (escapeText_ne_nil c)
    rw [Node.print, List.flatMap_cons, List.length_append]
    omega
  | empty name attributes => simp [Node.print, printTag]
  | element name attributes content => simp [Node.print, printTag]

/-- A text is read up to the markup behind it. -/
theorem readNodes_text {fuel : Nat} {raw rest : Text} (some : raw ≠ []) (plain : '<' ∉ raw)
    (behind : rest = [] ∨ ∃ more, rest = '<' :: more) :
    readNodes (fuel + 1) (raw ++ rest) = (readText raw).bind (fun chars =>
      (readNodes fuel rest).map (fun more => (.text chars :: more.1, more.2))) := by
  have passes : ∀ x ∈ raw, decide (x ≠ '<') = true := by
    intro x member
    rw [decide_eq_true_eq]
    intro same
    exact plain (same ▸ member)
  have split : (raw ++ rest).takeWhile (fun c => decide (c ≠ '<')) = raw ∧
      (raw ++ rest).dropWhile (fun c => decide (c ≠ '<')) = rest := by
    obtain rfl | ⟨more, rfl⟩ := behind
    · rw [List.append_nil]
      exact ⟨List.takeWhile_eq_self_iff.mpr passes, List.dropWhile_eq_nil_iff.mpr passes⟩
    · exact takeWhile_stop _ passes (by decide)
  obtain ⟨x, xs, rfl⟩ := List.exists_cons_of_ne_nil some
  have first : x ≠ '<' := fun same => plain (by simp [same])
  rw [List.cons_append] at split ⊢
  rw [readNodes, split.1, split.2]
  · intro none
    cases none
  · intro more same
    exact absurd (List.cons.inj same).1 first
  · intro more same
    exact absurd (List.cons.inj same).1 first

/-- An element is read, and then what is behind it. -/
theorem readNodes_element {fuel : Nat} {cs rest : Text} {node : Node} (noSlash : ∀ more, cs ≠ '/' :: more)
    (read : readElement (readNodes fuel) cs = some (node, rest)) :
    readNodes (fuel + 1) ('<' :: cs) =
      (readNodes fuel rest).map (fun more => (node :: more.1, more.2)) := by
  rw [readNodes, read, Option.bind_some]
  exact noSlash

theorem name_not_slash {name : Text} (named : isName name = true) (rest more : Text) :
    name ++ rest ≠ '/' :: more := by
  obtain ⟨c, cs, rfl, start, -⟩ := isName_cases named
  intro same
  rw [List.cons_append, List.cons.injEq] at same
  rw [same.1] at start
  exact absurd start (by decide)

/-- Printed nodes are read back. -/
theorem readNodes_print {fuel : Nat} {nodes : List Node} {rest : Text} (valid : NodesValid nodes)
    (ends : EndsContent rest) (enough : (printNodes nodes).length < fuel) :
    readNodes fuel (printNodes nodes ++ rest) = some (nodes, rest) := by
  induction fuel generalizing nodes rest with
  | zero => exact absurd enough (Nat.not_lt_zero _)
  | succ fuel inductionHypothesis =>
    cases nodes with
    | nil => exact readNodes_ends ends
    | cons node nodes =>
      rw [NodesValid] at valid
      obtain ⟨nodeValid, apart, nodesValid⟩ := valid
      have one := length_print_pos nodeValid
      rw [printNodes, List.length_append] at enough
      have others := inductionHypothesis nodesValid ends (by omega)
      rw [printNodes, List.append_assoc]
      cases node with
      | text chars =>
        rw [Node.Valid] at nodeValid
        -- a text that prints nothing would not be read as a node
        have filled : chars.flatMap escapeText ≠ [] := by
          rw [Node.print] at one
          exact List.ne_nil_of_length_pos one
        rw [Node.print, readNodes_text filled (not_mem_flatMap (fun c => (escapeText_plain c).1) chars)
          (behind_text (apart rfl) ends), readText_escaped nodeValid.2, others]
        rfl
      | empty name attributes =>
        rw [Node.Valid] at nodeValid
        have read := readElement_empty nodeValid.1 nodeValid.2 (readNodes fuel) (printNodes nodes ++ rest)
        have shown : (Node.empty name attributes).print ++ (printNodes nodes ++ rest) =
            '<' :: (name ++ attributes.flatMap printAttribute ++
              '/' :: '>' :: (printNodes nodes ++ rest)) := by
          simp [Node.print, printTag]
        rw [shown, readNodes_element _ read, others]
        · rfl
        · rw [List.append_assoc]
          exact name_not_slash nodeValid.1 _
      | element name attributes content =>
        rw [Node.Valid] at nodeValid
        obtain ⟨named, attributesValid, contentValid⟩ := nodeValid
        -- the content ends at the closing tag
        have inside := inductionHypothesis contentValid (show EndsContent
          ('<' :: '/' :: (name ++ '>' :: (printNodes nodes ++ rest))) from .inr ⟨_, rfl⟩) (by
            simp only [Node.print, List.length_append, List.length_cons] at enough
            omega)
        have read := readElement_content named attributesValid inside
        have shown : (Node.element name attributes content).print ++ (printNodes nodes ++ rest) =
            '<' :: (name ++ attributes.flatMap printAttribute ++ '>' :: (printNodes content ++
              '<' :: '/' :: (name ++ '>' :: (printNodes nodes ++ rest)))) := by
          simp [Node.print, printTag]
        rw [shown, readNodes_element _ read, others]
        · rfl
        · rw [List.append_assoc]
          exact name_not_slash named _

/-! ## Line ends -/

theorem normalizeLineEnds_of_plain {chars : Text} (plain : '\r' ∉ chars) (rest : Text) :
    normalizeLineEnds (chars ++ rest) = chars ++ normalizeLineEnds rest := by
  induction chars with
  | nil => rfl
  | cons c chars inductionHypothesis =>
    rw [List.mem_cons, not_or] at plain
    rw [List.cons_append, normalizeLineEnds, inductionHypothesis plain.2, List.cons_append]
    · intro more same
      exact absurd same.symm plain.1
    · intro same
      exact absurd same.symm plain.1

/-- A line end is not spread over what is not behind a carriage return. -/
theorem normalizeLineEnds_return {rest : Text} (apart : rest.head? ≠ some '\n') :
    normalizeLineEnds ('\r' :: rest) = '\n' :: normalizeLineEnds rest := by
  rw [normalizeLineEnds]
  intro more same
  rw [same] at apart
  exact apart rfl

theorem head?_escapeText (c : Char) (rest : Text) :
    (escapeText c ++ rest).head? = some '\n' ↔ c = '\n' := by
  unfold escapeText
  split_ifs with amp lt gt
  · simp [amp]
  · simp [lt]
  · simp [gt]
  · simp

/-- The line ends of a printed text are those of the text. -/
theorem normalizeLineEnds_escaped (chars : Text) {rest : Text} (apart : rest.head? ≠ some '\n') :
    normalizeLineEnds (chars.flatMap escapeText ++ rest) =
      (normalizeLineEnds chars).flatMap escapeText ++ normalizeLineEnds rest := by
  have ret : escapeText '\r' = ['\r'] := rfl
  have newline : escapeText '\n' = ['\n'] := rfl
  induction chars using normalizeLineEnds.induct with
  | case1 => rfl
  | case2 more inductionHypothesis =>
    rw [List.flatMap_cons, List.flatMap_cons, ret, newline, normalizeLineEnds, List.flatMap_cons, newline,
      List.append_assoc, List.append_assoc, List.append_assoc, ← inductionHypothesis]
    rfl
  | case3 more other inductionHypothesis =>
    rw [List.flatMap_cons, ret, normalizeLineEnds, List.flatMap_cons, newline, List.append_assoc,
      List.append_assoc, List.singleton_append, normalizeLineEnds_return, inductionHypothesis]
    · rfl
    · cases more with
      | nil => exact apart
      | cons c more =>
        rw [List.flatMap_cons, List.append_assoc, ne_eq, head?_escapeText]
        intro same
        exact other more (by rw [same])
    · exact other
  | case4 c more notBoth notReturn inductionHypothesis =>
    have plain : '\r' ∉ escapeText c := by
      unfold escapeText
      split_ifs <;> simp
      exact fun same => notReturn same.symm
    rw [List.flatMap_cons, List.append_assoc, normalizeLineEnds_of_plain plain, inductionHypothesis,
      normalizeLineEnds, List.flatMap_cons, List.append_assoc]
    · exact notBoth
    · exact notReturn

mutual

/-- With the line ends of its texts. -/
def Node.normalized : Node → Node
  | .text chars => .text (normalizeLineEnds chars)
  | .empty name attributes => .empty name attributes
  | .element name attributes content => .element name attributes (nodesNormalized content)

def nodesNormalized : List Node → List Node
  | [] => []
  | node :: nodes => node.normalized :: nodesNormalized nodes

end

theorem isText_normalized (node : Node) : node.normalized.isText = node.isText := by
  cases node <;> simp [Node.normalized, Node.isText]

theorem head?_nodesNormalized (nodes : List Node) :
    (nodesNormalized nodes).head?.any Node.isText = nodes.head?.any Node.isText := by
  cases nodes with
  | nil => rfl
  | cons node nodes => simp [nodesNormalized, isText_normalized]

theorem mem_normalizeLineEnds {chars : Text} {c : Char} (member : c ∈ normalizeLineEnds chars) :
    c ∈ chars ∨ c = '\n' := by
  induction chars using normalizeLineEnds.induct with
  | case1 => cases member
  | case2 more inductionHypothesis =>
    rw [normalizeLineEnds, List.mem_cons] at member
    cases member with
    | inl first => exact .inr first
    | inr later => exact (inductionHypothesis later).imp_left (by simp +contextual)
  | case3 more other inductionHypothesis =>
    rw [normalizeLineEnds, List.mem_cons] at member
    · cases member with
      | inl first => exact .inr first
      | inr later => exact (inductionHypothesis later).imp_left (by simp +contextual)
    · exact other
  | case4 d more notBoth notReturn inductionHypothesis =>
    rw [normalizeLineEnds, List.mem_cons] at member
    · cases member with
      | inl first => exact .inl (by simp [first])
      | inr later => exact (inductionHypothesis later).imp_left (by simp +contextual)
    · exact notBoth
    · exact notReturn

theorem normalizeLineEnds_ne_nil {chars : Text} (some : chars ≠ []) : normalizeLineEnds chars ≠ [] := by
  cases chars using normalizeLineEnds.fun_cases with
  | case1 => exact absurd rfl some
  | case2 more => simp [normalizeLineEnds]
  | case3 more other =>
    rw [normalizeLineEnds]
    · simp
    · exact other
  | case4 c more notBoth notReturn =>
    rw [normalizeLineEnds]
    · simp
    · exact notBoth
    · exact notReturn

mutual

theorem Node.Valid.normalized {node : Node} (valid : node.Valid) : node.normalized.Valid := by
  cases node with
  | text chars =>
    rw [Node.Valid] at valid
    rw [Node.normalized, Node.Valid]
    refine ⟨normalizeLineEnds_ne_nil valid.1, ?_⟩
    intro c member
    cases mem_normalizeLineEnds member with
    | inl before => exact valid.2 c before
    | inr newline =>
      rw [newline]
      rfl
  | empty name attributes => simpa only [Node.normalized] using valid
  | element name attributes content =>
    rw [Node.Valid] at valid
    rw [Node.normalized, Node.Valid]
    exact ⟨valid.1, valid.2.1, nodesValid_normalized valid.2.2⟩

theorem nodesValid_normalized {nodes : List Node} (valid : NodesValid nodes) :
    NodesValid (nodesNormalized nodes) := by
  cases nodes with
  | nil => simp [nodesNormalized, NodesValid]
  | cons node nodes =>
    rw [NodesValid] at valid
    rw [nodesNormalized, NodesValid, isText_normalized, head?_nodesNormalized]
    exact ⟨valid.1.normalized, valid.2.1, nodesValid_normalized valid.2.2⟩

end

theorem printTag_plain {name : Text} {attributes : List (Text × Text)} (named : isName name = true)
    (valid : AttributesValid attributes) : '\r' ∉ printTag name attributes := by
  have nameChar {x : Text} (named : isName x = true) : '\r' ∉ x := by
    obtain ⟨_, _, _, _, chars⟩ := isName_cases named
    intro member
    exact absurd (chars _ member) (by decide)
  intro member
  rw [printTag, List.mem_cons, List.mem_append] at member
  obtain first | inName | inAttributes := member
  · exact absurd first (by decide)
  · exact nameChar named inName
  · obtain ⟨a, listed, inside⟩ := List.mem_flatMap.mp inAttributes
    have valueChar : '\r' ∉ a.2.flatMap escapeValue :=
      not_mem_flatMap (fun c => (escapeValue_plain c).2) a.2
    simp [printAttribute, nameChar (valid.names a listed), valueChar] at inside

mutual

/-- The line ends of what is printed are those of the texts in it. -/
theorem Node.normalizeLineEnds_print {node : Node} (valid : node.Valid) {rest : Text}
    (apart : node.isText = true → rest.head? ≠ some '\n') :
    normalizeLineEnds (node.print ++ rest) = node.normalized.print ++ normalizeLineEnds rest := by
  cases node with
  | text chars =>
    rw [Node.print, Node.normalized, Node.print, normalizeLineEnds_escaped chars (apart rfl)]
  | empty name attributes =>
    rw [Node.Valid] at valid
    have plain := printTag_plain valid.1 valid.2
    rw [Node.normalized, Node.print, normalizeLineEnds_of_plain (by simp [plain])]
  | element name attributes content =>
    rw [Node.Valid] at valid
    obtain ⟨named, attributesValid, contentValid⟩ := valid
    have plain := printTag_plain named attributesValid
    have closing : '\r' ∉ '<' :: '/' :: (name ++ ['>']) := by
      have start := printTag_plain named (show AttributesValid [] from ⟨by simp, by simp, by simp⟩)
      simp [printTag] at start
      simp [start]
    have split : (Node.element name attributes content).print ++ rest =
        (printTag name attributes ++ ['>']) ++
          (printNodes content ++ ('<' :: '/' :: (name ++ ['>']) ++ rest)) := by
      simp [Node.print]
    rw [split, normalizeLineEnds_of_plain (by simp [plain]),
      normalizeLineEnds_printNodes contentValid (by simp), normalizeLineEnds_of_plain closing]
    simp [Node.normalized, Node.print]

theorem normalizeLineEnds_printNodes {nodes : List Node} (valid : NodesValid nodes) {rest : Text}
    (apart : rest.head? ≠ some '\n') :
    normalizeLineEnds (printNodes nodes ++ rest) =
      printNodes (nodesNormalized nodes) ++ normalizeLineEnds rest := by
  cases nodes with
  | nil => rw [printNodes, nodesNormalized, printNodes, List.nil_append, List.nil_append]
  | cons node nodes =>
    rw [NodesValid] at valid
    obtain ⟨nodeValid, texts, nodesValid⟩ := valid
    have next (text : node.isText = true) : (printNodes nodes ++ rest).head? ≠ some '\n' := by
      cases nodes with
      | nil => rwa [printNodes, List.nil_append]
      | cons other nodes =>
        obtain ⟨more, printed⟩ := print_of_not_text other (by simpa using texts text)
        rw [printNodes, printed]
        simp
    rw [printNodes, List.append_assoc, Node.normalizeLineEnds_print nodeValid next,
      normalizeLineEnds_printNodes nodesValid apart, nodesNormalized, printNodes, List.append_assoc]

end

/-! ## Documents -/

theorem normalizeLineEnds_printDocument {root : Node} (valid : root.Valid)
    (tag : root.isText = false) :
    normalizeLineEnds (printDocument root) = printDocument root.normalized := by
  have split : printDocument root = (declaration ++ ['\n']) ++ (root.print ++ ['\n']) := by
    simp [printDocument]
  have plain : '\r' ∉ declaration ++ ['\n'] := by decide
  rw [split, normalizeLineEnds_of_plain plain, Node.normalizeLineEnds_print valid (by simp [tag])]
  simp [printDocument, normalizeLineEnds]

/-- The root is read, and nothing but white space may be behind it. -/
theorem readElement_root {root : Node} (valid : root.Valid) {cs : Text} (printed : root.print = '<' :: cs)
    (rest : Text) (fuel : Nat) (enough : root.print.length < fuel) :
    readElement (readNodes fuel) (cs ++ rest) = some (root, rest) := by
  cases root with
  | text chars =>
    rw [Node.Valid] at valid
    have first : '<' ∈ (Node.text chars).print := by simp [printed]
    rw [Node.print] at first
    exact absurd first (not_mem_flatMap (fun c => (escapeText_plain c).1) chars)
  | empty name attributes =>
    rw [Node.Valid] at valid
    have shown : cs ++ rest = name ++ attributes.flatMap printAttribute ++ '/' :: '>' :: rest := by
      rw [Node.print, printTag, List.cons_append, List.cons.injEq] at printed
      rw [← printed.2]
      simp
    rw [shown, readElement_empty valid.1 valid.2]
  | element name attributes content =>
    rw [Node.Valid] at valid
    obtain ⟨named, attributesValid, contentValid⟩ := valid
    have shown : cs ++ rest = name ++ attributes.flatMap printAttribute ++ '>' ::
        (printNodes content ++ '<' :: '/' :: (name ++ '>' :: rest)) := by
      rw [Node.print, printTag, List.cons_append, List.cons.injEq] at printed
      rw [← printed.2]
      simp
    rw [shown]
    refine readElement_content named attributesValid (readNodes_print contentValid (.inr ⟨_, rfl⟩) ?_)
    simp only [Node.print, List.length_append, List.length_cons] at enough
    omega

/-- A printed document is well-formed, and reads as its tree with the line ends of the texts. -/
theorem readDocument_printDocument {root : Node} (valid : root.Valid) (tag : root.isText = false) :
    readDocument (printDocument root) = some root.normalized := by
  obtain ⟨cs, printed⟩ := print_of_not_text _ ((isText_normalized root).trans tag)
  have declared : declaration.isPrefixOf (printDocument root.normalized) = true := by
    rw [List.isPrefixOf_iff_prefix]
    exact List.prefix_append _ _
  have behind : (printDocument root.normalized).drop declaration.length =
      '\n' :: '<' :: (cs ++ ['\n']) := by
    rw [printDocument, List.drop_left, printed]
    rfl
  have long : root.normalized.print.length < (printDocument root.normalized).length + 1 := by
    simp only [printDocument, List.length_append, List.length_cons]
    omega
  have read := readElement_root valid.normalized printed ['\n'] _ long
  have spaces : isSpace '\n' = true ∧ isSpace '<' = false := by decide
  rw [readDocument, normalizeLineEnds_printDocument valid tag]
  simp only [declared, if_true, behind, List.dropWhile_cons, spaces.1, spaces.2, Bool.false_eq_true,
    if_false, read, Option.bind_eq_bind, Option.bind_some, List.all_cons, List.all_nil, Bool.and_self,
    Option.pure_def]

/-! ## Texts without carriage returns -/

theorem return_not_mem_normalizeLineEnds (chars : Text) : '\r' ∉ normalizeLineEnds chars := by
  induction chars using normalizeLineEnds.induct with
  | case1 => simp [normalizeLineEnds]
  | case2 more inductionHypothesis => simpa [normalizeLineEnds] using inductionHypothesis
  | case3 more other inductionHypothesis =>
    rw [normalizeLineEnds]
    · simpa using inductionHypothesis
    · exact other
  | case4 c more notBoth notReturn inductionHypothesis =>
    rw [normalizeLineEnds]
    · rw [List.mem_cons, not_or]
      exact ⟨fun same => notReturn same.symm, inductionHypothesis⟩
    · exact notBoth
    · exact notReturn

theorem normalizeLineEnds_eq_self_iff (chars : Text) :
    normalizeLineEnds chars = chars ↔ '\r' ∉ chars := by
  constructor
  · intro same
    rw [← same]
    exact return_not_mem_normalizeLineEnds chars
  · intro plain
    have whole := normalizeLineEnds_of_plain plain []
    rwa [List.append_nil, normalizeLineEnds, List.append_nil] at whole

mutual

/-- The texts of a tree. -/
def Node.texts : Node → List Text
  | .text chars => [chars]
  | .empty _ _ => []
  | .element _ _ content => nodesTexts content

def nodesTexts : List Node → List Text
  | [] => []
  | node :: nodes => node.texts ++ nodesTexts nodes

end

mutual

theorem Node.normalized_eq_self_iff (node : Node) :
    node.normalized = node ↔ ∀ chars ∈ node.texts, '\r' ∉ chars := by
  cases node with
  | text chars =>
    rw [Node.normalized, Node.texts, List.forall_mem_singleton, Node.text.injEq,
      normalizeLineEnds_eq_self_iff]
  | empty name attributes => simp [Node.normalized, Node.texts]
  | element name attributes content =>
    rw [Node.normalized, Node.texts, Node.element.injEq, ← nodesNormalized_eq_self_iff content]
    simp

theorem nodesNormalized_eq_self_iff (nodes : List Node) :
    nodesNormalized nodes = nodes ↔ ∀ chars ∈ nodesTexts nodes, '\r' ∉ chars := by
  cases nodes with
  | nil => simp [nodesNormalized, nodesTexts]
  | cons node nodes =>
    rw [nodesNormalized, nodesTexts, List.cons.injEq, List.forall_mem_append,
      Node.normalized_eq_self_iff node, nodesNormalized_eq_self_iff nodes]

end

theorem nodesTexts_append (nodes nodes' : List Node) :
    nodesTexts (nodes ++ nodes') = nodesTexts nodes ++ nodesTexts nodes' := by
  induction nodes with
  | nil => rfl
  | cons node nodes inductionHypothesis =>
    rw [List.cons_append, nodesTexts, nodesTexts, inductionHypothesis, List.append_assoc]

/-! ## Looking into a tree -/

def Node.isNamed (name : Text) : Node → Bool
  | .text _ => false
  | .empty n _ => n = name
  | .element n _ _ => n = name

def Node.attributes : Node → List (Text × Text)
  | .text _ => []
  | .empty _ attributes => attributes
  | .element _ attributes _ => attributes

def Node.content : Node → List Node
  | .element _ _ content => content
  | _ => []

/-- The elements of a name right below an element. -/
def Node.children (name : Text) (node : Node) : List Node := node.content.filter (Node.isNamed name)

end Evald.Lib.Xml
