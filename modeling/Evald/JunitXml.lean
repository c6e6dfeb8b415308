import Evald.Junit
import Evald.Lib.Xml

/-! # JUnit reports as XML

A report is rendered as a document that is well-formed whatever its texts are
(`readDocument_render`).  Its attributes read back as the strings of the suite, and so do its
texts unless one has a carriage return, which a reader of XML takes for a line end
(`render_reads_iff`).
-/

namespace Evald.Junit

open Evald.Lib Evald.Lib.Xml

/-! ## Escaping -/

def xmlChar (c : Char) : Bool :=
  let n := c.toNat
  c = '\t' || c = '\n' || c = '\r' || (0x20 ≤ n && n ≤ 0xD7FF) || (0xE000 ≤ n && n ≤ 0xFFFD) ||
    (0x10000 ≤ n && n ≤ 0x10FFFF)

/-- In the text of an element. -/
def text (s : String) : Text :=
  s.toList.flatMap (fun c =>
    if c = '&' then "&amp;".toList
    else if c = '<' then "&lt;".toList
    else if c = '>' then "&gt;".toList
    else if xmlChar c then [c]
    else ['\uFFFD'])

/-- In the value of an attribute. -/
def attr (s : String) : Text :=
  s.toList.flatMap (fun c =>
    if c = '&' then "&amp;".toList
    else if c = '<' then "&lt;".toList
    else if c = '>' then "&gt;".toList
    else if c = '"' then "&quot;".toList
    else if c = '\'' then "&apos;".toList
    else if c = '\n' then "&#10;".toList
    else if c = '\r' then "&#13;".toList
    else if c = '\t' then "&#9;".toList
    else if xmlChar c then [c]
    else ['\uFFFD'])

/-! ## Numbers -/

/-- The nearest whole number to one from zero up, the even one of two. -/
def roundHalfEven (q : ℚ) : Nat :=
  let below := ⌊q⌋.toNat
  if q - below < 1 / 2 ∨ (q - below = 1 / 2 ∧ below % 2 = 0) then below else below + 1

/-- A double with some digits behind the point. -/
def fixed (digits : Nat) : F64 → Text
  | .nan => "NaN".toList
  | .infinite negative => if negative then "-inf".toList else "inf".toList
  | .finite q =>
    let n := roundHalfEven (|q| * 10 ^ digits)
    (if q < 0 then ['-'] else []) ++ Nat.toDigits 10 (n / 10 ^ digits) ++
      (if digits = 0 then [] else '.' :: pad digits (n % 10 ^ digits))

/-! ## Rendering -/

structure Tally where
  tests : Nat
  failures : Nat
  errors : Nat
  skipped : Nat

def Suite.tally (suite : Suite) : Tally :=
  suite.cases.foldl (fun t c =>
    match c.outcome with
    | .fail .. => { t with failures := t.failures + 1 }
    | .error .. => { t with errors := t.errors + 1 }
    | .skipped _ => { t with skipped := t.skipped + 1 }
    | .pass => t) { tests := suite.cases.length, failures := 0, errors := 0, skipped := 0 }

def counts (suite : Suite) : Text :=
  let t := suite.tally
  "tests=\"".toList ++ Nat.toDigits 10 t.tests ++ "\" failures=\"".toList ++
    Nat.toDigits 10 t.failures ++ "\" errors=\"".toList ++ Nat.toDigits 10 t.errors ++
    "\" skipped=\"".toList ++ Nat.toDigits 10 t.skipped ++ "\" time=\"".toList ++
    fixed 3 suite.timeSecs ++ "\"".toList

def renderProperty (p : String × String) : Text :=
  "      <property name=\"".toList ++ attr p.1 ++ "\" value=\"".toList ++ attr p.2 ++ "\"/>\n".toList

def renderProperties (properties : List (String × String)) : Text :=
  if properties.isEmpty then []
  else "    <properties>\n".toList ++ properties.flatMap renderProperty ++
    "    </properties>\n".toList

def renderOutcome : Outcome → Text
  | .pass => []
  | .fail kind message detail =>
    "      <failure message=\"".toList ++ attr message ++ "\" type=\"".toList ++ attr kind ++
      "\">".toList ++ text detail ++ "</failure>\n".toList
  | .error message detail =>
    "      <error message=\"".toList ++ attr message ++ "\" type=\"Error\">".toList ++ text detail ++
      "</error>\n".toList
  | .skipped message => "      <skipped message=\"".toList ++ attr message ++ "\"/>\n".toList

def renderOutput : Option String → Text
  | some out => "      <system-out>".toList ++ text out ++ "</system-out>\n".toList
  | none => []

def renderCase (classname : String) (c : Case) : Text :=
  "    <testcase classname=\"".toList ++ attr classname ++ "\" name=\"".toList ++ attr c.name ++
    "\" time=\"0.000\"".toList ++
    if c.outcome = .pass ∧ c.output = none then "/>\n".toList
    else ">\n".toList ++ renderOutcome c.outcome ++ renderOutput c.output ++ "    </testcase>\n".toList

def render (suite : Suite) : Text :=
  "<?xml version=\"1.0\" encoding=\"UTF-8\"?>\n".toList ++
    "<testsuites name=\"".toList ++ attr suite.name ++ "\" ".toList ++ counts suite ++ ">\n".toList ++
    "  <testsuite name=\"".toList ++ attr suite.name ++ "\" ".toList ++ counts suite ++ ">\n".toList ++
    renderProperties suite.properties ++ suite.cases.flatMap (renderCase suite.classname) ++
    "  </testsuite>\n</testsuites>\n".toList

/-! ## What a reader is to find -/

/-- A character that a document cannot carry is replaced. -/
def cleanChar (c : Char) : Char := if xmlChar c then c else '\uFFFD'

def clean (s : String) : Text := s.toList.map cleanChar

/-- Each node on a line of its own, and the end of what they are in. -/
def indented (inner outer : String) (nodes : List Node) : List Node :=
  nodes.flatMap (fun node => [.text ('\n' :: inner.toList), node]) ++ [.text ('\n' :: outer.toList)]

def textNodes (s : String) : List Node := if s = "" then [] else [.text (clean s)]

def propertyNode (p : String × String) : Node :=
  .empty "property".toList [("name".toList, clean p.1), ("value".toList, clean p.2)]

def propertyNodes (properties : List (String × String)) : List Node :=
  if properties.isEmpty then []
  else [.element "properties".toList [] (indented "      " "    " (properties.map propertyNode))]

def outcomeNodes : Outcome → List Node
  | .pass => []
  | .fail kind message detail =>
    [.element "failure".toList [("message".toList, clean message), ("type".toList, clean kind)]
      (textNodes detail)]
  | .error message detail =>
    [.element "error".toList [("message".toList, clean message), ("type".toList, "Error".toList)]
      (textNodes detail)]
  | .skipped message => [.empty "skipped".toList [("message".toList, clean message)]]

def outputNodes : Option String → List Node
  | some out => [.element "system-out".toList [] (textNodes out)]
  | none => []

def caseNode (classname : String) (c : Case) : Node :=
  let attributes :=
    [("classname".toList, clean classname), ("name".toList, clean c.name),
      ("time".toList, "0.000".toList)]
  if c.outcome = .pass ∧ c.output = none then .empty "testcase".toList attributes
  else
    .element "testcase".toList attributes
      (indented "      " "    " (outcomeNodes c.outcome ++ outputNodes c.output))

def suiteAttributes (suite : Suite) : List (Text × Text) :=
  let t := suite.tally
  [("name".toList, clean suite.name), ("tests".toList, Nat.toDigits 10 t.tests),
    ("failures".toList, Nat.toDigits 10 t.failures), ("errors".toList, Nat.toDigits 10 t.errors),
    ("skipped".toList, Nat.toDigits 10 t.skipped), ("time".toList, fixed 3 suite.timeSecs)]

/-- The properties and the cases. -/
def suiteNodes (suite : Suite) : List Node :=
  propertyNodes suite.properties ++ suite.cases.map (caseNode suite.classname)

/-- The document of a suite. -/
def suiteNode (suite : Suite) : Node :=
  .element "testsuites".toList (suiteAttributes suite)
    (indented "  " ""
      [.element "testsuite".toList (suiteAttributes suite) (indented "    " "  " (suiteNodes suite))])

/-! ## The document is printed -/

theorem text_eq (s : String) : text s = (clean s).flatMap escapeText := by
  rw [text, clean, List.flatMap_map]
  apply List.flatMap_congr
  intro c _
  by_cases allowed : xmlChar c = true
  · simp only [cleanChar, allowed, if_true, escapeText]
  · split_ifs with amp lt gt
    · subst amp
      exact absurd rfl allowed
    · subst lt
      exact absurd rfl allowed
    · subst gt
      exact absurd rfl allowed
    · rw [cleanChar, if_neg allowed]
      rfl

theorem attr_eq (s : String) : attr s = (clean s).flatMap escapeValue := by
  rw [attr, clean, List.flatMap_map]
  apply List.flatMap_congr
  intro c _
  by_cases allowed : xmlChar c = true
  · simp only [cleanChar, allowed, if_true, escapeValue]
  · rw [cleanChar, if_neg allowed]
    split_ifs with amp lt gt quot apos newline ret tab
    · subst amp
      exact absurd rfl allowed
    · subst lt
      exact absurd rfl allowed
    · subst gt
      exact absurd rfl allowed
    · subst quot
      exact absurd rfl allowed
    · subst apos
      exact absurd rfl allowed
    · subst newline
      exact absurd rfl allowed
    · subst ret
      exact absurd rfl allowed
    · subst tab
      exact absurd rfl allowed
    · rfl

/-- The characters of a number, which stand for themselves. -/
def IsPlain (c : Char) : Prop := c.isDigit = true ∨ c ∈ ['-', '.', 'N', 'a', 'i', 'n', 'f']

theorem IsPlain.spec {c : Char} (plain : IsPlain c) : escapeValue c = [c] ∧ isChar c = true := by
  cases plain with
  | inl digit =>
    have other (x : Char) (not : x.isDigit = false) : c ≠ x := by
      intro same
      rw [same, not] at digit
      cases digit
    constructor
    · simp [escapeValue, other '&' (by decide), other '<' (by decide), other '>' (by decide),
        other '"' (by decide), other '\'' (by decide), other '\n' (by decide), other '\r' (by decide),
        other '\t' (by decide)]
    · have range : 48 ≤ c.toNat ∧ c.toNat ≤ 57 := by
        rw [Char.isDigit, Bool.and_eq_true, decide_eq_true_eq, decide_eq_true_eq] at digit
        exact ⟨UInt32.le_iff_toNat_le.mp digit.1, UInt32.le_iff_toNat_le.mp digit.2⟩
      simp [isChar]
      omega
  | inr other =>
    have each : ∀ c ∈ ['-', '.', 'N', 'a', 'i', 'n', 'f'], escapeValue c = [c] ∧ isChar c = true := by
      simp [escapeValue, isChar]
    exact each c other

theorem isPlain_toDigits {n : Nat} {c : Char} (member : c ∈ Nat.toDigits 10 n) : IsPlain c :=
  .inl (Nat.isDigit_of_mem_toDigits (by decide) (by decide) member)

theorem isPlain_fixed {digits : Nat} {x : F64} {c : Char} (member : c ∈ fixed digits x) : IsPlain c := by
  cases x with
  | nan =>
    have word : ∀ c ∈ "NaN".toList, c ∈ ['-', '.', 'N', 'a', 'i', 'n', 'f'] := by simp
    exact .inr (word c member)
  | infinite negative =>
    have word : ∀ c ∈ "-inf".toList, c ∈ ['-', '.', 'N', 'a', 'i', 'n', 'f'] := by simp
    right
    cases negative with
    | true => exact word c member
    | false => exact word c (List.mem_cons_of_mem '-' member)
  | finite q =>
    rw [fixed, List.mem_append, List.mem_append] at member
    obtain (sign | whole) | fraction := member
    · split at sign
      · rw [List.mem_singleton] at sign
        rw [sign]
        exact .inr (by simp)
      · cases sign
    · exact isPlain_toDigits whole
    · split at fraction
      · cases fraction
      · rw [List.mem_cons] at fraction
        cases fraction with
        | inl point =>
          rw [point]
          exact .inr (by simp)
        | inr digit => exact .inl (isDigit_of_mem_pad digit)

theorem escaped_plain {chars : Text} (plain : ∀ c ∈ chars, IsPlain c) :
    chars.flatMap escapeValue = chars := by
  induction chars with
  | nil => rfl
  | cons c chars inductionHypothesis =>
    rw [List.forall_mem_cons] at plain
    rw [List.flatMap_cons, plain.1.spec.1, inductionHypothesis plain.2, List.singleton_append]

/-- Nodes that are printed on a line each. -/
def onLines (indent : String) (nodes : List Node) : Text :=
  nodes.flatMap (fun node => indent.toList ++ node.print ++ ['\n'])

theorem printNodes_append (nodes nodes' : List Node) :
    printNodes (nodes ++ nodes') = printNodes nodes ++ printNodes nodes' := by
  induction nodes with
  | nil => rfl
  | cons node nodes inductionHypothesis =>
    rw [List.cons_append, printNodes, printNodes, inductionHypothesis, List.append_assoc]

theorem onLines_append (indent : String) (nodes nodes' : List Node) :
    onLines indent (nodes ++ nodes') = onLines indent nodes ++ onLines indent nodes' :=
  List.flatMap_append

/-- White space before each node is white space behind the one before it. -/
theorem printNodes_indented {inner outer : String} (innerPlain : ∀ c ∈ inner.toList, c = ' ')
    (outerPlain : ∀ c ∈ outer.toList, c = ' ') (nodes : List Node) :
    printNodes (indented inner outer nodes) = '\n' :: (onLines inner nodes ++ outer.toList) := by
  have blank {s : String} (plain : ∀ c ∈ s.toList, c = ' ') :
      ('\n' :: s.toList).flatMap escapeText = '\n' :: s.toList := by
    have each : s.toList.flatMap escapeText = s.toList := by
      generalize s.toList = chars at plain
      induction chars with
      | nil => rfl
      | cons c chars inductionHypothesis =>
        rw [List.forall_mem_cons] at plain
        rw [List.flatMap_cons, inductionHypothesis plain.2, plain.1]
        rfl
    rw [List.flatMap_cons, each]
    rfl
  rw [indented, printNodes_append, printNodes, Node.print, blank outerPlain, printNodes, List.append_nil]
  induction nodes with
  | nil => rfl
  | cons node nodes inductionHypothesis =>
    rw [List.flatMap_cons, printNodes_append, List.append_assoc, inductionHypothesis, printNodes, printNodes,
      printNodes, Node.print, blank innerPlain, onLines, onLines, List.flatMap_cons]
    simp

theorem onLines_one (indent : String) (node : Node) :
    onLines indent [node] = indent.toList ++ (node.print ++ ['\n']) := by
  rw [onLines, List.flatMap_cons, List.flatMap_nil, List.append_nil, List.append_assoc]

theorem renderProperty_eq (p : String × String) :
    renderProperty p = "      ".toList ++ (propertyNode p).print ++ ['\n'] := by
  have opening : "      <property name=\"".toList =
      "      ".toList ++ '<' :: ("property".toList ++ ' ' :: ("name".toList ++ ['=', '"'])) := by
    simp
  have between : "\" value=\"".toList = '"' :: ' ' :: ("value".toList ++ ['=', '"']) := by
    simp
  have closing : "\"/>\n".toList = ['"', '/', '>', '\n'] := by simp
  unfold renderProperty
  rewrite [opening, between, closing, attr_eq, attr_eq]
  simp only [propertyNode, Node.print, printTag, printAttribute, List.flatMap_cons, List.flatMap_nil,
    List.append_assoc, List.cons_append, List.nil_append]

theorem renderProperties_eq (properties : List (String × String)) :
    renderProperties properties = onLines "    " (propertyNodes properties) := by
  have opening : "    <properties>\n".toList =
      "    ".toList ++ '<' :: ("properties".toList ++ ['>', '\n']) := by simp
  have closing : "    </properties>\n".toList =
      "    ".toList ++ '<' :: '/' :: ("properties".toList ++ ['>', '\n']) := by simp
  have inner : ∀ c ∈ "      ".toList, c = ' ' := by simp
  have outer : ∀ c ∈ "    ".toList, c = ' ' := by simp
  have lines : properties.flatMap renderProperty = onLines "      " (properties.map propertyNode) := by
    rw [onLines, List.flatMap_map]
    exact List.flatMap_congr fun p _ => renderProperty_eq p
  have content := printNodes_indented inner outer (properties.map propertyNode)
  unfold renderProperties propertyNodes
  split
  · rfl
  · rewrite [opening, closing, lines, onLines_one, Node.print, printTag, content]
    simp only [List.flatMap_nil, List.append_assoc, List.cons_append, List.nil_append, List.append_nil]

theorem printNodes_textNodes (s : String) : printNodes (textNodes s) = text s := by
  rw [textNodes, text_eq]
  split
  · next empty =>
    rw [empty]
    rfl
  · rw [printNodes, Node.print, printNodes, List.append_nil]

theorem renderOutcome_eq (outcome : Outcome) :
    renderOutcome outcome = onLines "      " (outcomeNodes outcome) := by
  cases outcome with
  | pass => rfl
  | fail kind message detail =>
    have opening : "      <failure message=\"".toList =
        "      ".toList ++ '<' :: ("failure".toList ++ ' ' :: ("message".toList ++ ['=', '"'])) := by
      simp
    have between : "\" type=\"".toList = '"' :: ' ' :: ("type".toList ++ ['=', '"']) := by
      simp
    have ended : "\">".toList = ['"', '>'] := by simp
    have closing : "</failure>\n".toList = '<' :: '/' :: ("failure".toList ++ ['>', '\n']) := by
      simp
    unfold renderOutcome
    simp only
    rewrite [opening, between, ended, closing, attr_eq, attr_eq]
    simp only [outcomeNodes, onLines_one, List.flatMap_cons, List.flatMap_nil, Node.print, printTag,
      printAttribute, printNodes_textNodes, List.append_assoc, List.cons_append, List.nil_append, List.append_nil]
  | error message detail =>
    have opening : "      <error message=\"".toList =
        "      ".toList ++ '<' :: ("error".toList ++ ' ' :: ("message".toList ++ ['=', '"'])) := by
      simp
    have between : "\" type=\"Error\">".toList =
        '"' :: ' ' :: ("type".toList ++ '=' :: '"' :: ("Error".toList.flatMap escapeValue ++ ['"', '>'])) := by
      simp [escapeValue]
    have closing : "</error>\n".toList = '<' :: '/' :: ("error".toList ++ ['>', '\n']) := by
      simp
    unfold renderOutcome
    simp only
    rewrite [opening, between, closing, attr_eq]
    simp only [outcomeNodes, onLines_one, List.flatMap_cons, List.flatMap_nil, Node.print, printTag,
      printAttribute, printNodes_textNodes, List.append_assoc, List.cons_append, List.nil_append, List.append_nil]
  | skipped message =>
    have opening : "      <skipped message=\"".toList =
        "      ".toList ++ '<' :: ("skipped".toList ++ ' ' :: ("message".toList ++ ['=', '"'])) := by
      simp
    have closing : "\"/>\n".toList = ['"', '/', '>', '\n'] := by simp
    unfold renderOutcome
    simp only
    rewrite [opening, closing, attr_eq]
    simp only [outcomeNodes, onLines_one, List.flatMap_cons, List.flatMap_nil, Node.print, printTag,
      printAttribute, List.append_assoc, List.cons_append, List.nil_append, List.append_nil]

theorem renderOutput_eq (output : Option String) :
    renderOutput output = onLines "      " (outputNodes output) := by
  cases output with
  | none => rfl
  | some out =>
    have opening : "      <system-out>".toList =
        "      ".toList ++ '<' :: ("system-out".toList ++ ['>']) := by simp
    have closing : "</system-out>\n".toList = '<' :: '/' :: ("system-out".toList ++ ['>', '\n']) := by
      simp
    unfold renderOutput
    simp only
    rewrite [opening, closing]
    simp only [outputNodes, onLines_one, List.flatMap_nil, Node.print, printTag, printNodes_textNodes,
      List.append_assoc, List.cons_append, List.nil_append]

theorem renderCase_eq (classname : String) (c : Case) :
    renderCase classname c = "    ".toList ++ ((caseNode classname c).print ++ ['\n']) := by
  have opening : "    <testcase classname=\"".toList =
      "    ".toList ++ '<' :: ("testcase".toList ++ ' ' :: ("classname".toList ++ ['=', '"'])) := by
    simp
  have named : "\" name=\"".toList = '"' :: ' ' :: ("name".toList ++ ['=', '"']) := by simp
  have timed : "\" time=\"0.000\"".toList =
      '"' :: ' ' :: ("time".toList ++ '=' :: '"' :: ("0.000".toList.flatMap escapeValue ++ ['"'])) := by
    simp [escapeValue]
  have none : "/>\n".toList = ['/', '>', '\n'] := by simp
  have some : ">\n".toList = ['>', '\n'] := by simp
  have closing : "    </testcase>\n".toList =
      "    ".toList ++ '<' :: '/' :: ("testcase".toList ++ ['>', '\n']) := by simp
  have inner : ∀ c ∈ "      ".toList, c = ' ' := by simp
  have outer : ∀ c ∈ "    ".toList, c = ' ' := by simp
  have content := printNodes_indented inner outer (outcomeNodes c.outcome ++ outputNodes c.output)
  rewrite [onLines_append, ← renderOutcome_eq, ← renderOutput_eq] at content
  unfold renderCase caseNode
  rewrite [opening, named, timed, none, some, closing, attr_eq, attr_eq]
  split
  · simp only [Node.print, printTag, printAttribute, List.flatMap_cons, List.flatMap_nil,
      List.append_assoc, List.cons_append, List.nil_append]
  · simp only [Node.print, printTag, printAttribute, content, List.flatMap_cons, List.flatMap_nil,
      List.append_assoc, List.cons_append, List.nil_append]

/-- The attributes of both elements of a suite. -/
theorem counts_eq (suite : Suite) :
    ' ' :: ("name".toList ++ '=' :: '"' :: (attr suite.name ++ "\" ".toList ++ counts suite)) =
      (suiteAttributes suite).flatMap printAttribute := by
  have blank : "\" ".toList = ['"', ' '] := by simp
  have tests : "tests=\"".toList = "tests".toList ++ ['=', '"'] := by simp
  have failures : "\" failures=\"".toList = '"' :: ' ' :: ("failures".toList ++ ['=', '"']) := by
    simp
  have errors : "\" errors=\"".toList = '"' :: ' ' :: ("errors".toList ++ ['=', '"']) := by simp
  have skipped : "\" skipped=\"".toList = '"' :: ' ' :: ("skipped".toList ++ ['=', '"']) := by
    simp
  have time : "\" time=\"".toList = '"' :: ' ' :: ("time".toList ++ ['=', '"']) := by simp
  have quote : "\"".toList = ['"'] := by simp
  have digits (n : Nat) : (Nat.toDigits 10 n).flatMap escapeValue = Nat.toDigits 10 n :=
    escaped_plain (fun _ member => isPlain_toDigits member)
  have seconds : (fixed 3 suite.timeSecs).flatMap escapeValue = fixed 3 suite.timeSecs :=
    escaped_plain (fun _ member => isPlain_fixed member)
  unfold counts suiteAttributes
  simp only
  rewrite [blank, tests, failures, errors, skipped, time, quote, attr_eq]
  simp only [printAttribute, digits, seconds, List.flatMap_cons, List.flatMap_nil, List.append_assoc,
    List.cons_append, List.nil_append]

/-- What is rendered is the document of the suite. -/
theorem render_eq (suite : Suite) : render suite = printDocument (suiteNode suite) := by
  have declared : "<?xml version=\"1.0\" encoding=\"UTF-8\"?>\n".toList = declaration ++ ['\n'] := by
    decide
  have outer : "<testsuites name=\"".toList =
      '<' :: ("testsuites".toList ++ ' ' :: ("name".toList ++ ['=', '"'])) := by simp
  have inner : "  <testsuite name=\"".toList =
      "  ".toList ++ '<' :: ("testsuite".toList ++ ' ' :: ("name".toList ++ ['=', '"'])) := by
    simp
  have opened : ">\n".toList = ['>', '\n'] := by simp
  have closing : "  </testsuite>\n</testsuites>\n".toList =
      "  ".toList ++ '<' :: '/' :: ("testsuite".toList ++ '>' :: '\n' :: ("".toList ++
        '<' :: '/' :: ("testsuites".toList ++ ['>', '\n']))) := by simp
  have head (rest : Text) : ' ' :: ("name".toList ++ '=' :: '"' :: (attr suite.name ++
      ("\" ".toList ++ (counts suite ++ rest)))) =
      (suiteAttributes suite).flatMap printAttribute ++ rest := by
    rewrite [← counts_eq]
    simp only [List.append_assoc, List.cons_append]
  have cases : suite.cases.flatMap (renderCase suite.classname) =
      onLines "    " (suite.cases.map (caseNode suite.classname)) := by
    rewrite [onLines, List.flatMap_map]
    apply List.flatMap_congr
    intro c _
    rewrite [renderCase_eq, List.append_assoc]
    rfl
  have two : ∀ c ∈ "  ".toList, c = ' ' := by simp
  have four : ∀ c ∈ "    ".toList, c = ' ' := by simp
  have none : ∀ c ∈ "".toList, c = ' ' := by simp
  have content := printNodes_indented four two (suiteNodes suite)
  have root := printNodes_indented two none
    [.element "testsuite".toList (suiteAttributes suite) (indented "    " "  " (suiteNodes suite))]
  rewrite [onLines_one, Node.print, printTag, content, suiteNodes, onLines_append] at root
  unfold render
  rewrite [declared, outer, inner, opened, closing, cases, renderProperties_eq]
  rewrite [printDocument, suiteNode, Node.print, printTag, suiteNodes, root]
  simp only [List.append_assoc, List.cons_append, List.nil_append, head]

/-! ## The document is well-formed -/

theorem xmlChar_eq_isChar (c : Char) : xmlChar c = isChar c := by
  have same (x : Char) : decide (c = x) = decide (c.toNat = x.toNat) := by
    rw [decide_eq_decide]
    exact ⟨fun here => by rw [here], fun number => Char.toNat_inj.mp number⟩
  rw [xmlChar, isChar, same '\t', same '\n', same '\r']
  rfl

theorem isChar_clean {s : String} : ∀ c ∈ clean s, isChar c = true := by
  intro c member
  obtain ⟨d, -, rfl⟩ := List.mem_map.mp member
  unfold cleanChar
  split
  · next allowed => rwa [← xmlChar_eq_isChar]
  · rfl

theorem isChar_of_plain {chars : Text} (plain : ∀ c ∈ chars, IsPlain c) :
    ∀ c ∈ chars, isChar c = true :=
  fun c member => (plain c member).spec.2

/-- The names of elements and attributes. -/
def vocabulary : List String :=
  ["testsuites", "testsuite", "properties", "property", "testcase", "failure", "error", "skipped",
    "system-out", "name", "value", "classname", "message", "type", "time", "tests", "failures", "errors"]

theorem isName_vocabulary : ∀ word ∈ vocabulary, isName word.toList = true := by
  decide

theorem attributesValid_of_words {attributes : List (Text × Text)} (words : List String)
    (same : attributes.map Prod.fst = words.map String.toList) (known : words ⊆ vocabulary)
    (once : words.Nodup) (values : ∀ a ∈ attributes, ∀ c ∈ a.2, isChar c = true) :
    AttributesValid attributes where
  names a member := by
    have listed : a.1 ∈ words.map String.toList := by
      rw [← same]
      exact List.mem_map_of_mem member
    obtain ⟨word, spoken, here⟩ := List.mem_map.mp listed
    rw [← here]
    exact isName_vocabulary word (known spoken)
  values := values
  once := by
    rw [same]
    exact once.map (fun _ _ same => String.toList_injective same)

theorem valid_propertyNode (p : String × String) : (propertyNode p).Valid := by
  rw [propertyNode, Node.Valid]
  refine ⟨isName_vocabulary "property" (by simp [vocabulary]), attributesValid_of_words ["name", "value"] rfl
    (by simp [vocabulary]) (by simp) ?_⟩
  simp only [List.forall_mem_cons]
  exact ⟨isChar_clean, isChar_clean, by simp⟩

/-- An element between two lines of white space. -/
theorem nodesValid_indented {inner outer : String} (innerPlain : ∀ c ∈ inner.toList, c = ' ')
    (outerPlain : ∀ c ∈ outer.toList, c = ' ') {nodes : List Node}
    (valid : ∀ node ∈ nodes, node.Valid ∧ node.isText = false) :
    NodesValid (indented inner outer nodes) := by
  have blank {s : String} (plain : ∀ c ∈ s.toList, c = ' ') : (Node.text ('\n' :: s.toList)).Valid := by
    rw [Node.Valid]
    refine ⟨by simp, ?_⟩
    rw [List.forall_mem_cons]
    refine ⟨rfl, ?_⟩
    intro c member
    rw [plain c member]
    rfl
  induction nodes with
  | nil =>
    rw [indented, List.flatMap_nil, List.nil_append, NodesValid, NodesValid]
    exact ⟨blank outerPlain, by simp, trivial⟩
  | cons node nodes inductionHypothesis =>
    rw [List.forall_mem_cons] at valid
    have rest := inductionHypothesis valid.2
    rw [indented] at rest ⊢
    rw [List.flatMap_cons, List.append_assoc, List.cons_append, List.singleton_append, NodesValid, NodesValid]
    refine ⟨blank innerPlain, ?_, valid.1.1, ?_, rest⟩
    · simp [valid.1.2]
    · simp [valid.1.2]

theorem valid_propertyNodes (properties : List (String × String)) :
    ∀ node ∈ propertyNodes properties, node.Valid ∧ node.isText = false := by
  unfold propertyNodes
  split
  · simp
  · rw [List.forall_mem_singleton, Node.Valid]
    refine ⟨⟨isName_vocabulary "properties" (by simp [vocabulary]),
      attributesValid_of_words [] rfl (by simp) (by simp) (by simp), ?_⟩, rfl⟩
    refine nodesValid_indented (by simp) (by simp) ?_
    rw [List.forall_mem_map]
    exact fun p _ => ⟨valid_propertyNode p, rfl⟩

theorem nodesValid_textNodes (s : String) : NodesValid (textNodes s) := by
  unfold textNodes
  split
  · simp [NodesValid]
  · next some =>
    rw [NodesValid, NodesValid, Node.Valid]
    refine ⟨⟨?_, isChar_clean⟩, by simp, trivial⟩
    simpa [clean] using some

theorem valid_outcomeNodes (outcome : Outcome) :
    ∀ node ∈ outcomeNodes outcome, node.Valid ∧ node.isText = false := by
  cases outcome with
  | pass => simp [outcomeNodes]
  | fail kind message detail =>
    rw [outcomeNodes, List.forall_mem_singleton, Node.Valid]
    refine ⟨⟨isName_vocabulary "failure" (by simp [vocabulary]), ?_, nodesValid_textNodes detail⟩, rfl⟩
    refine attributesValid_of_words ["message", "type"] rfl
      (by simp [vocabulary]) (by simp) ?_
    simp only [List.forall_mem_cons]
    exact ⟨isChar_clean, isChar_clean, by simp⟩
  | error message detail =>
    rw [outcomeNodes, List.forall_mem_singleton, Node.Valid]
    refine ⟨⟨isName_vocabulary "error" (by simp [vocabulary]), ?_, nodesValid_textNodes detail⟩, rfl⟩
    have kind : ∀ c ∈ "Error".toList, isChar c = true := by simp [isChar]
    refine attributesValid_of_words ["message", "type"] rfl
      (by simp [vocabulary]) (by simp) ?_
    simp only [List.forall_mem_cons]
    exact ⟨isChar_clean, kind, by simp⟩
  | skipped message =>
    rw [outcomeNodes, List.forall_mem_singleton, Node.Valid]
    refine ⟨⟨isName_vocabulary "skipped" (by simp [vocabulary]), ?_⟩, rfl⟩
    refine attributesValid_of_words ["message"] rfl
      (by simp [vocabulary]) (by simp) ?_
    simp only [List.forall_mem_cons]
    exact ⟨isChar_clean, by simp⟩

theorem valid_outputNodes (output : Option String) :
    ∀ node ∈ outputNodes output, node.Valid ∧ node.isText = false := by
  cases output with
  | none => simp [outputNodes]
  | some out =>
    rw [outputNodes, List.forall_mem_singleton, Node.Valid]
    refine ⟨⟨isName_vocabulary "system-out" (by simp [vocabulary]), ?_, nodesValid_textNodes out⟩, rfl⟩
    exact attributesValid_of_words [] rfl (by simp) (by simp) (by simp)

theorem valid_caseNode (classname : String) (c : Case) :
    (caseNode classname c).Valid ∧ (caseNode classname c).isText = false := by
  have named := isName_vocabulary "testcase" (by simp [vocabulary])
  have attributes : AttributesValid [("classname".toList, clean classname),
      ("name".toList, clean c.name), ("time".toList, "0.000".toList)] := by
    have time : ∀ c ∈ "0.000".toList, isChar c = true := by simp [isChar]
    refine attributesValid_of_words ["classname", "name", "time"] rfl
      (by simp [vocabulary]) (by simp) ?_
    simp only [List.forall_mem_cons]
    exact ⟨isChar_clean, isChar_clean, time, by simp⟩
  rw [caseNode]
  split
  · rw [Node.Valid]
    exact ⟨⟨named, attributes⟩, rfl⟩
  · rw [Node.Valid]
    refine ⟨⟨named, attributes, nodesValid_indented (by simp) (by simp) ?_⟩, rfl⟩
    rw [List.forall_mem_append]
    exact ⟨valid_outcomeNodes c.outcome, valid_outputNodes c.output⟩

theorem attributesValid_suite (suite : Suite) : AttributesValid (suiteAttributes suite) := by
  have digits (n : Nat) := isChar_of_plain (fun c (member : c ∈ Nat.toDigits 10 n) =>
    isPlain_toDigits member)
  refine attributesValid_of_words ["name", "tests", "failures", "errors",
    "skipped", "time"] rfl
    (by simp [vocabulary]) (by simp) ?_
  simp only [suiteAttributes, List.forall_mem_cons]
  exact ⟨isChar_clean, digits _, digits _, digits _, digits _,
    isChar_of_plain (fun _ member => isPlain_fixed member), by simp⟩

theorem valid_suiteNode (suite : Suite) : (suiteNode suite).Valid := by
  have attributes := attributesValid_suite suite
  rw [suiteNode, Node.Valid]
  refine ⟨isName_vocabulary "testsuites" (by simp [vocabulary]), attributes,
    nodesValid_indented (by simp) (by simp) ?_⟩
  rw [List.forall_mem_singleton, Node.Valid]
  refine ⟨⟨isName_vocabulary "testsuite" (by simp [vocabulary]), attributes,
    nodesValid_indented (by simp) (by simp) ?_⟩, rfl⟩
  rw [suiteNodes, List.forall_mem_append, List.forall_mem_map]
  exact ⟨valid_propertyNodes suite.properties, fun c _ => valid_caseNode suite.classname c⟩

/-- Whatever the texts of a suite are, a reader takes its document. -/
theorem readDocument_render (suite : Suite) :
    readDocument (render suite) = some (suiteNode suite).normalized := by
  rw [render_eq]
  exact readDocument_printDocument (valid_suiteNode suite) rfl

/-! ## Carriage returns -/

/-- A reader keeps the texts of the nodes. -/
def KeepsTexts (nodes : List Node) : Prop := ∀ chars ∈ nodesTexts nodes, '\r' ∉ chars

theorem keepsTexts_append {nodes nodes' : List Node} :
    KeepsTexts (nodes ++ nodes') ↔ KeepsTexts nodes ∧ KeepsTexts nodes' := by
  rw [KeepsTexts, nodesTexts_append, List.forall_mem_append]
  rfl

theorem keepsTexts_cons {node : Node} {nodes : List Node} :
    KeepsTexts (node :: nodes) ↔ KeepsTexts [node] ∧ KeepsTexts nodes :=
  @keepsTexts_append [node] nodes

theorem keepsTexts_element {name : Text} {attributes : List (Text × Text)} {content : List Node} :
    KeepsTexts [.element name attributes content] ↔ KeepsTexts content := by
  rw [KeepsTexts, nodesTexts, nodesTexts, List.append_nil, Node.texts]
  rfl

theorem keepsTexts_indented {inner outer : String} (innerPlain : ∀ c ∈ inner.toList, c = ' ')
    (outerPlain : ∀ c ∈ outer.toList, c = ' ') (nodes : List Node) :
    KeepsTexts (indented inner outer nodes) ↔ KeepsTexts nodes := by
  have blank {s : String} (plain : ∀ c ∈ s.toList, c = ' ') : KeepsTexts [.text ('\n' :: s.toList)] := by
    intro chars member
    rw [nodesTexts, Node.texts, nodesTexts, List.append_nil, List.mem_singleton] at member
    rw [member, List.mem_cons, not_or]
    exact ⟨by decide, fun inside => absurd (plain _ inside) (by decide)⟩
  rw [indented, keepsTexts_append, and_iff_left (blank outerPlain)]
  induction nodes with
  | nil => rfl
  | cons node nodes inductionHypothesis =>
    rw [List.flatMap_cons, keepsTexts_append, keepsTexts_cons, and_iff_right (blank innerPlain),
      @keepsTexts_cons _ nodes]
    exact and_congr_right' inductionHypothesis

theorem return_mem_clean {s : String} : '\r' ∈ clean s ↔ '\r' ∈ s.toList := by
  have same (c : Char) : cleanChar c = '\r' ↔ c = '\r' := by
    unfold cleanChar
    split
    · rfl
    · next forbidden =>
      constructor
      · intro replaced
        exact absurd replaced (by decide)
      · intro ret
        rw [ret] at forbidden
        exact absurd rfl forbidden
  simp [clean, same]

theorem keepsTexts_textNodes (s : String) : KeepsTexts (textNodes s) ↔ '\r' ∉ s.toList := by
  unfold textNodes
  split
  · next empty => simp [KeepsTexts, nodesTexts, empty]
  · rw [KeepsTexts, nodesTexts, nodesTexts, Node.texts, List.append_nil, List.forall_mem_singleton,
      return_mem_clean]

/-- The text below the element of an outcome. -/
def Outcome.detail : Outcome → Option String
  | .fail _ _ detail => some detail
  | .error _ detail => some detail
  | _ => none

/-- What a report has as texts. -/
def Suite.bodies (suite : Suite) : List String :=
  suite.cases.flatMap (fun c => c.outcome.detail.toList ++ c.output.toList)

theorem keepsTexts_outcome (outcome : Outcome) :
    KeepsTexts (outcomeNodes outcome) ↔ ∀ body ∈ outcome.detail.toList, '\r' ∉ body.toList := by
  cases outcome with
  | pass => simp [outcomeNodes, Outcome.detail, KeepsTexts, nodesTexts]
  | fail kind message detail =>
    rw [outcomeNodes, keepsTexts_element, keepsTexts_textNodes, Outcome.detail, Option.toList_some,
      List.forall_mem_singleton]
  | error message detail =>
    rw [outcomeNodes, keepsTexts_element, keepsTexts_textNodes, Outcome.detail, Option.toList_some,
      List.forall_mem_singleton]
  | skipped message => simp [outcomeNodes, Outcome.detail, KeepsTexts, nodesTexts, Node.texts]

theorem keepsTexts_output (output : Option String) :
    KeepsTexts (outputNodes output) ↔ ∀ body ∈ output.toList, '\r' ∉ body.toList := by
  cases output with
  | none => simp [outputNodes, KeepsTexts, nodesTexts]
  | some out =>
    rw [outputNodes, keepsTexts_element, keepsTexts_textNodes, Option.toList_some,
      List.forall_mem_singleton]

theorem keepsTexts_case (classname : String) (c : Case) :
    KeepsTexts [caseNode classname c] ↔
      ∀ body ∈ c.outcome.detail.toList ++ c.output.toList, '\r' ∉ body.toList := by
  rw [caseNode]
  split
  · next bare => simp [bare.1, bare.2, Outcome.detail, KeepsTexts, nodesTexts, Node.texts]
  · rw [keepsTexts_element, keepsTexts_indented (by simp) (by simp), keepsTexts_append,
      keepsTexts_outcome, keepsTexts_output, List.forall_mem_append]

theorem keepsTexts_properties (properties : List (String × String)) :
    KeepsTexts (propertyNodes properties) := by
  unfold propertyNodes
  split
  · simp [KeepsTexts, nodesTexts]
  · rw [keepsTexts_element, keepsTexts_indented (by simp) (by simp)]
    induction properties with
    | nil => simp [KeepsTexts, nodesTexts]
    | cons p properties inductionHypothesis =>
      rw [List.map_cons, keepsTexts_cons]
      refine ⟨by simp [KeepsTexts, nodesTexts, propertyNode, Node.texts], ?_⟩
      cases properties with
      | nil => simp [KeepsTexts, nodesTexts]
      | cons q properties => exact inductionHypothesis (by simp)

theorem keepsTexts_cases (classname : String) (cases : List Case) :
    KeepsTexts (cases.map (caseNode classname)) ↔
      ∀ body ∈ cases.flatMap (fun c => c.outcome.detail.toList ++ c.output.toList),
        '\r' ∉ body.toList := by
  induction cases with
  | nil => simp [KeepsTexts, nodesTexts]
  | cons c cases inductionHypothesis =>
    rw [List.map_cons, keepsTexts_cons, keepsTexts_case, inductionHypothesis, List.flatMap_cons,
      @List.forall_mem_append _ _ _ (cases.flatMap _)]

/-- The reader finds the document of the suite if no body has a carriage return. -/
theorem normalized_suiteNode_iff (suite : Suite) :
    (suiteNode suite).normalized = suiteNode suite ↔ ∀ body ∈ suite.bodies, '\r' ∉ body.toList := by
  have root : (∀ chars ∈ (suiteNode suite).texts, '\r' ∉ chars) ↔ KeepsTexts [suiteNode suite] := by
    rw [KeepsTexts, nodesTexts, nodesTexts, List.append_nil]
  rw [Node.normalized_eq_self_iff, root, suiteNode, keepsTexts_element,
    keepsTexts_indented (by simp) (by simp), keepsTexts_element, keepsTexts_indented (by simp) (by simp),
    suiteNodes, keepsTexts_append, and_iff_right (keepsTexts_properties suite.properties),
    keepsTexts_cases]
  rfl

/-! ## Counts -/

/-- The cases of a document, and how many have an element of each outcome. -/
def emitted (root : Node) : Tally :=
  let cases := (root.children "testsuite".toList).flatMap (Node.children "testcase".toList)
  let having (name : String) := cases.countP (fun c => c.content.any (Node.isNamed name.toList))
  { tests := cases.length, failures := having "failure", errors := having "error",
    skipped := having "skipped" }

/-- The counts on an element are those of the document. -/
def StatesCounts (root node : Node) : Prop :=
  let t := emitted root
  ∀ p ∈ [("tests", t.tests), ("failures", t.failures), ("errors", t.errors), ("skipped", t.skipped)],
    (p.1.toList, Nat.toDigits 10 p.2) ∈ node.attributes

theorem filter_indented (name : Text) (inner outer : String) (nodes : List Node) :
    (indented inner outer nodes).filter (Node.isNamed name) = nodes.filter (Node.isNamed name) := by
  rw [indented, List.filter_append]
  induction nodes with
  | nil => simp [Node.isNamed]
  | cons node nodes inductionHypothesis =>
    have blank : Node.isNamed name (.text ('\n' :: inner.toList)) = false := rfl
    rw [List.flatMap_cons, List.filter_append, List.append_assoc, inductionHypothesis,
      List.filter_cons_of_neg (by simp [blank]), ← List.filter_append, List.singleton_append]

theorem any_indented (name : Text) (inner outer : String) (nodes : List Node) :
    (indented inner outer nodes).any (Node.isNamed name) = nodes.any (Node.isNamed name) := by
  have blank (chars : Text) : Node.isNamed name (.text chars) = false := rfl
  simp [indented, List.any_append, List.any_flatMap, blank]

/-- Beside its output, a case has the element of its outcome. -/
theorem any_caseNode {name : Text} (other : "system-out".toList ≠ name) (classname : String) (c : Case) :
    (caseNode classname c).content.any (Node.isNamed name) =
      (outcomeNodes c.outcome).any (Node.isNamed name) := by
  have output : (outputNodes c.output).any (Node.isNamed name) = false := by
    cases c.output with
    | none => rfl
    | some out => simpa [outputNodes, Node.isNamed] using other
  rw [caseNode]
  split
  · next bare =>
    rw [bare.1]
    rfl
  · rw [Node.content, any_indented, List.any_append, output, Bool.or_false]

theorem any_outcomeNodes (outcome : Outcome) :
    (outcomeNodes outcome).any (Node.isNamed "failure".toList) = outcome.isFail ∧
      (outcomeNodes outcome).any (Node.isNamed "error".toList) = outcome.isError ∧
        (outcomeNodes outcome).any (Node.isNamed "skipped".toList) = outcome.isSkipped := by
  cases outcome with
  | pass => exact ⟨rfl, rfl, rfl⟩
  | fail kind message detail =>
    simp [outcomeNodes, Node.isNamed, Outcome.isFail, Outcome.isError, Outcome.isSkipped]
  | error message detail =>
    simp [outcomeNodes, Node.isNamed, Outcome.isFail, Outcome.isError, Outcome.isSkipped]
  | skipped message =>
    simp [outcomeNodes, Node.isNamed, Outcome.isFail, Outcome.isError, Outcome.isSkipped]

/-- Each kind is counted on its own. -/
theorem tally_eq (suite : Suite) :
    suite.tally =
      { tests := suite.cases.length,
        failures := suite.cases.countP (fun c => c.outcome.isFail),
        errors := suite.cases.countP (fun c => c.outcome.isError),
        skipped := suite.cases.countP (fun c => c.outcome.isSkipped) } := by
  have counted (cases : List Case) (t : Tally) :
      cases.foldl (fun t c =>
        match c.outcome with
        | .fail .. => { t with failures := t.failures + 1 }
        | .error .. => { t with errors := t.errors + 1 }
        | .skipped _ => { t with skipped := t.skipped + 1 }
        | .pass => t) t =
        { tests := t.tests,
          failures := t.failures + cases.countP (fun c => c.outcome.isFail),
          errors := t.errors + cases.countP (fun c => c.outcome.isError),
          skipped := t.skipped + cases.countP (fun c => c.outcome.isSkipped) } := by
    induction cases generalizing t with
    | nil => rfl
    | cons c cases inductionHypothesis =>
      rw [List.foldl_cons, inductionHypothesis]
      cases outcome : c.outcome with
      | pass => simp [outcome, Outcome.isFail, Outcome.isError, Outcome.isSkipped]
      | fail kind message detail =>
        simp [outcome, Outcome.isFail, Outcome.isError, Outcome.isSkipped]
        omega
      | error message detail =>
        simp [outcome, Outcome.isFail, Outcome.isError, Outcome.isSkipped]
        omega
      | skipped message =>
        simp [outcome, Outcome.isFail, Outcome.isError, Outcome.isSkipped]
        omega
  rw [Suite.tally, counted]
  simp

/-- The cases of the document are those of the suite. -/
theorem emitted_suiteNode (suite : Suite) : emitted (suiteNode suite) = suite.tally := by
  have suites : (suiteNode suite).children "testsuite".toList =
      [.element "testsuite".toList (suiteAttributes suite) (indented "    " "  " (suiteNodes suite))] := by
    rw [suiteNode, Node.children, Node.content, filter_indented]
    simp [Node.isNamed]
  have properties : (propertyNodes suite.properties).filter (Node.isNamed "testcase".toList) = [] := by
    unfold propertyNodes
    split <;> simp [Node.isNamed]
  have each (c : Case) : (caseNode suite.classname c).isNamed "testcase".toList = true := by
    rw [caseNode]
    split <;> simp [Node.isNamed]
  have cases : ((suiteNode suite).children "testsuite".toList).flatMap
      (Node.children "testcase".toList) = suite.cases.map (caseNode suite.classname) := by
    rw [suites, List.flatMap_cons, List.flatMap_nil, List.append_nil, Node.children, Node.content,
      filter_indented, suiteNodes, List.filter_append, properties, List.nil_append, List.filter_eq_self,
      List.forall_mem_map]
    exact fun c _ => each c
  have having {name : String} (other : "system-out".toList ≠ name.toList) :
      (suite.cases.map (caseNode suite.classname)).countP
        (fun c => c.content.any (Node.isNamed name.toList)) =
      suite.cases.countP (fun c => (outcomeNodes c.outcome).any (Node.isNamed name.toList)) := by
    rw [List.countP_map]
    exact List.countP_congr (by simp [any_caseNode other])
  rw [emitted, cases]
  simp only
  rw [having (by simp), having (by simp), having (by simp), tally_eq, List.length_map]
  simp only [any_outcomeNodes]

theorem statesCounts_suiteNode (suite : Suite) :
    ∀ node ∈ suiteNode suite :: (suiteNode suite).children "testsuite".toList,
      StatesCounts (suiteNode suite) node := by
  have stated (node : Node) (attributes : node.attributes = suiteAttributes suite) :
      StatesCounts (suiteNode suite) node := by
    rw [StatesCounts, emitted_suiteNode, attributes]
    simp [suiteAttributes]
  rw [List.forall_mem_cons]
  refine ⟨stated _ rfl, ?_⟩
  rw [suiteNode, Node.children, Node.content, filter_indented]
  intro node member
  obtain ⟨listed, -⟩ := List.mem_filter.mp member
  rw [List.mem_singleton] at listed
  rw [← suiteNode]
  exact stated node (by rw [listed]; rfl)

/-! ## Reports -/

/-- What a reader has of a report: its strings, and counts of what is in it. -/
structure Faithful (suite : Suite) (root : Node) : Prop where
  strings : root = suiteNode suite
  counts : ∀ node ∈ root :: root.children "testsuite".toList, StatesCounts root node

/-- A report reads back if no detail and no output has a carriage return. -/
theorem render_faithful_iff (suite : Suite) :
    (∃ root, readDocument (render suite) = some root ∧ Faithful suite root) ↔
      ∀ body ∈ suite.bodies, '\r' ∉ body.toList := by
  rw [← normalized_suiteNode_iff, readDocument_render]
  constructor
  · rintro ⟨root, read, faithful⟩
    rw [Option.some.injEq] at read
    rw [read, faithful.strings]
  · intro same
    exact ⟨suiteNode suite, by rw [same], rfl, statesCounts_suiteNode suite⟩

/-- An output with a line end of another system. -/
def returned : Suite where
  name := "run"
  classname := "judge"
  timeSecs := .finite 0
  properties := []
  cases := [{ name := "case", outcome := .pass, output := some "one\rtwo" }]

theorem returned_not_faithful :
    ¬ ∃ root, readDocument (render returned) = some root ∧ Faithful returned root := by
  rintro ⟨root, read, faithful⟩
  have kept := (normalized_suiteNode_iff returned).mp (by
    rw [readDocument_render, Option.some.injEq] at read
    rw [read, faithful.strings])
  exact absurd (kept "one\rtwo" (by simp [returned, Suite.bodies, Outcome.detail])) (by decide)

end Evald.Junit
