import Evald.Lib.Groups
import Evald.Redact

/-! # Which rule a hit belongs to

A policy is one alternation of the built-in classes and the operator's own patterns, each in
a group of its own.  The number of that group is known when the alternation is put together,
from the groups of the patterns before it, and a hit belongs to the first rule whose group
took part in the match.  That is the rule whose alternative produced the match, as long as
every pattern ends where its parenthesis does (`hits_attributed`).
-/

namespace Evald.Redact

open Evald.Lib

/-! ## The engine -/

/-- The regex engine: the pattern of a text, the captures of each match, and whether the end
of a text is inside a line comment of verbose mode, `(?x)`. -/
structure RegexEngine where
  compile : String → Option Pattern
  capturesIter : Pattern → List Char → List Captures
  endsInComment : String → Bool

def wrap (pattern : String) : String := "(" ++ pattern ++ ")"

def join (alternatives : List String) : String := "|".intercalate alternatives

/-- What its documentation says. -/
structure RegexEngine.Documented (engine : RegexEngine) : Prop where
  /-- Captures are those of a match, the groups numbered by their opening parentheses. -/
  captures : ∀ {p : Pattern} {text : List Char} {caps : Captures},
    caps ∈ engine.capturesIter p text → ∃ i j, p.Takes text 1 i j caps
  /-- Patterns in parentheses with bars between them are alternatives, each a group, if the
  parentheses are not in a comment. -/
  alternation : ∀ {texts : List String} {patterns : List Pattern} {re : Pattern},
    texts ≠ [] → texts.map engine.compile = patterns.map some →
      (∀ t ∈ texts.dropLast, engine.endsInComment t = false) →
      engine.compile (join (texts.map wrap)) = some re →
      re.alternatives = patterns.map Pattern.group
  /-- A comment begins with its sign. -/
  comment : ∀ {t : String}, engine.endsInComment t = true → '#' ∈ t.toList

/-! ## Building a policy -/

def Class.patternText : Class → String
  | jwt => "eyJ[A-Za-z0-9_-]\x7b8,\x7d\\.[A-Za-z0-9_-]\x7b8,\x7d\\.[A-Za-z0-9_-]\x7b8,\x7d"
  | apiKey =>
    "(?:sk-[A-Za-z0-9_-]\x7b16,\x7d|AKIA[0-9A-Z]\x7b16\x7d|gh[pousr]_[A-Za-z0-9]\x7b20,\x7d" ++
      "|xox[abpr]-[0-9A-Za-z-]\x7b10,\x7d)"
  | email => "[A-Za-z0-9._%+\\-]+@[A-Za-z0-9.\\-]+\\.[A-Za-z]\x7b2,\x7d"
  | ssn => "[0-9]\x7b3\x7d-[0-9]\x7b2\x7d-[0-9]\x7b4\x7d"
  | creditCard => "[0-9](?:[ \\-]?[0-9])\x7b12,18\x7d"
  | phone =>
    "(?:\\+[1-9][0-9]\x7b7,14\x7d|\\(?[0-9]\x7b3\x7d\\)?[ \\-][0-9]\x7b3\x7d-[0-9]\x7b4\x7d)"
  | ip =>
    "(?:(?:25[0-5]|2[0-4][0-9]|1[0-9]\x7b2\x7d|[1-9]?[0-9])\\.)\x7b3\x7d" ++
      "(?:25[0-5]|2[0-4][0-9]|1[0-9]\x7b2\x7d|[1-9]?[0-9])" ++
      "|(?:[0-9A-Fa-f]\x7b1,4\x7d:)\x7b2,7\x7d[0-9A-Fa-f]\x7b1,4\x7d"

inductive PolicyError where
  | redact (error : RedactError)
  /-- The compilation of a built-in pattern is expected to succeed; otherwise it panics. -/
  | builtin (c : Class)
  | badCustom (spec : String)
  | badRegex (name : String)

/-- What the rules have made of the alternation so far. -/
structure Builder where
  alternatives : List String := []
  labels : List String := []
  luhnGated : List Bool := []
  groups : List Nat := []
  nextGroup : Nat := 1

/-- A rule before it is compiled. -/
structure RuleSpec where
  label : String
  text : String
  luhnGated : Bool
  deriving DecidableEq

/-- The next group is behind those the rule brings along. -/
def Builder.push (b : Builder) (rule : RuleSpec) (own : Nat) : Builder :=
  { alternatives := b.alternatives ++ [wrap rule.text]
    labels := b.labels ++ [rule.label]
    luhnGated := b.luhnGated ++ [rule.luhnGated]
    groups := b.groups ++ [b.nextGroup]
    nextGroup := b.nextGroup + own }

def Class.spec (c : Class) : RuleSpec :=
  { label := c.asStr, text := c.patternText, luhnGated := c = creditCard }

/-- `name=regex`, neither of them empty. -/
def customSpec (spec : String) : Option RuleSpec :=
  match splitOnce spec '=' with
  | none => none
  | some (name, pattern) =>
    if trim name = "" || trim pattern = "" then none
    else some { label := trim name, text := trim pattern, luhnGated := false }

section Build

variable (engine : RegexEngine)

def pushClass (b : Builder) (c : Class) : Except PolicyError Builder :=
  match engine.compile c.spec.text with
  | none => .error (.builtin c)
  | some p => .ok (b.push c.spec p.capturesLen)

def pushCustom (b : Builder) (spec : String) : Except PolicyError Builder :=
  match customSpec spec with
  | none => .error (.badCustom spec)
  | some rule =>
    match engine.compile rule.text with
    | none => .error (.badRegex rule.label)
    | some p => .ok (b.push rule p.capturesLen)

structure Policy where
  re : Pattern
  labels : List String
  /-- The number of each rule's own group. -/
  groups : List Nat
  luhnGated : List Bool
  action : Action

def Policy.build (classes custom : List String) (action : String) :
    Except PolicyError (Option Policy) :=
  match Action.parse action with
  | none => .error (.redact (.unknownAction action))
  | some action =>
    match selectClasses (classes.flatMap (fun c => (c.toList.splitOn ',').map String.ofList)) with
    | .error e => .error (.redact e)
    | .ok selected => do
      let b ← (Class.all.filter (fun c => c ∈ selected)).foldlM (pushClass engine) {}
      let b ← custom.foldlM (pushCustom engine) b
      if b.alternatives.isEmpty then pure none
      else
        match engine.compile (join b.alternatives) with
        | none => throw (.badRegex "<combined>")
        | some re =>
          pure (some
            { re := re
              labels := b.labels
              groups := b.groups
              luhnGated := b.luhnGated
              action := action })

end Build

/-! ## Scrubbing -/

namespace Policy

variable (engine : RegexEngine) (deps : Deps) (policy : Policy)

/-- The rule of a hit, and where it is: the first rule whose group took part in the match. -/
def hit (caps : Captures) : Option (Nat × Nat × Nat) := Pattern.firstGroup policy.groups caps

def scrubNext (text : List Char) (st : Scrubbing) (caps : Captures) : Scrubbing :=
  match policy.hit caps with
  | none => st
  | some (idx, start, stop) =>
    let value := slice text start stop
    if policy.luhnGated.getD idx false && !luhnValid value then st
    else
      { out := some (st.out.getD [] ++ slice text st.last start ++
          placeholder deps policy.action (policy.labels.getD idx "") value)
        last := stop
        counts := st.counts.insert idx (st.counts.getD idx 0 + 1) }

def scrub (text : String) : Option (String × List (Nat × Nat)) :=
  let st := (engine.capturesIter policy.re text.toList).foldl (policy.scrubNext deps text.toList) {}
  st.out.map (fun buf =>
    (String.ofList (buf ++ text.toList.drop st.last), st.counts.toList))

end Policy

/-! ## What has been built -/

def rulesOf (selected : List Class) (custom : List String) : List RuleSpec :=
  (Class.all.filter (fun c => c ∈ selected)).map Class.spec ++ custom.filterMap customSpec

/-- The alternation of some rules, and the patterns they are compiled to. -/
structure Builder.Holds (engine : RegexEngine) (b : Builder) (rules : List RuleSpec)
    (patterns : List Pattern) : Prop where
  compiled : rules.map (fun rule => engine.compile rule.text) = patterns.map some
  alternatives : b.alternatives = rules.map (fun rule => wrap rule.text)
  labels : b.labels = rules.map RuleSpec.label
  luhnGated : b.luhnGated = rules.map RuleSpec.luhnGated
  /-- Each rule's own group, as the patterns in their parentheses number it. -/
  groups : b.groups = (List.range (patterns.map Pattern.group).length).map
    (fun k => Pattern.numberOf (patterns.map Pattern.group) 1 k)
  nextGroup : b.nextGroup = 1 + Pattern.count (patterns.map Pattern.group)

section Built

variable {engine : RegexEngine} {b : Builder} {rules : List RuleSpec} {patterns : List Pattern}

theorem Builder.holds_empty : Builder.Holds engine {} [] [] :=
  { compiled := rfl
    alternatives := rfl
    labels := rfl
    luhnGated := rfl
    groups := rfl
    nextGroup := rfl }

theorem Builder.Holds.push (holds : b.Holds engine rules patterns) {rule : RuleSpec} {p : Pattern}
    (compiles : engine.compile rule.text = some p) :
    (b.push rule p.capturesLen).Holds engine (rules ++ [rule]) (patterns ++ [p]) where
  compiled := by simp [holds.compiled, compiles]
  alternatives := by simp [Builder.push, holds.alternatives]
  labels := by simp [Builder.push, holds.labels]
  luhnGated := by simp [Builder.push, holds.luhnGated]
  groups := by
    rw [Builder.push, List.map_append, List.map_singleton, Pattern.map_numberOf_push,
      holds.groups, holds.nextGroup]
  nextGroup := by
    have own : p.group.groups = p.capturesLen := rfl
    simp only [Builder.push, holds.nextGroup, Pattern.count, List.map_append, List.sum_append,
      List.map_singleton, List.sum_singleton, own]
    omega

/-- A step that pushes the rule of its entry, once per entry. -/
theorem Builder.Holds.foldlM {T : Type} {f : Builder → T → Except PolicyError Builder}
    (specOf : T → Option RuleSpec)
    (pushes : ∀ b b' x, f b x = .ok b' → ∃ rule p, specOf x = some rule ∧
      engine.compile rule.text = some p ∧ b' = b.push rule p.capturesLen)
    {xs : List T} {b' : Builder} (holds : b.Holds engine rules patterns)
    (built : xs.foldlM f b = .ok b') :
    ∃ more, b'.Holds engine (rules ++ xs.filterMap specOf) (patterns ++ more) := by
  induction xs generalizing b rules patterns with
  | nil =>
    cases built
    exact ⟨[], by simpa using holds⟩
  | cons x xs inductionHypothesis =>
    rw [List.foldlM_cons] at built
    cases step : f b x with
    | error e =>
      rw [step] at built
      cases built
    | ok next =>
      rw [step] at built
      obtain ⟨rule, p, isRule, compiles, rfl⟩ := pushes b next x step
      obtain ⟨more, rest⟩ := inductionHypothesis (holds.push compiles) built
      refine ⟨p :: more, ?_⟩
      rw [List.filterMap_cons_some isRule]
      simpa using rest

theorem pushes_of_pushClass (b b' : Builder) (c : Class) (built : pushClass engine b c = .ok b') :
    ∃ rule p, (some c.spec) = some rule ∧ engine.compile rule.text = some p ∧
      b' = b.push rule p.capturesLen := by
  unfold pushClass at built
  cases compiles : engine.compile c.spec.text with
  | none =>
    rw [compiles] at built
    cases built
  | some p =>
    rw [compiles] at built
    cases built
    exact ⟨c.spec, p, rfl, compiles, rfl⟩

theorem pushes_of_pushCustom (b b' : Builder) (spec : String)
    (built : pushCustom engine b spec = .ok b') :
    ∃ rule p, customSpec spec = some rule ∧ engine.compile rule.text = some p ∧
      b' = b.push rule p.capturesLen := by
  unfold pushCustom at built
  cases isRule : customSpec spec with
  | none =>
    rw [isRule] at built
    cases built
  | some rule =>
    rw [isRule] at built
    simp only at built
    cases compiles : engine.compile rule.text with
    | none =>
      rw [compiles] at built
      cases built
    | some p =>
      rw [compiles] at built
      cases built
      exact ⟨rule, p, rfl, compiles, rfl⟩

theorem ok_of_bind {E S T : Type} {x : Except E S} {f : S → Except E T} {r : T}
    (done : x >>= f = .ok r) : ∃ y, x = .ok y ∧ f y = .ok r := by
  cases x with
  | error e => cases done
  | ok y => exact ⟨y, rfl, done⟩

/-- A policy is what the rules of its selection made. -/
theorem holds_of_build {classes custom : List String} {action : String} {selected : List Class}
    {policy : Policy}
    (chosen : selectClasses
      (classes.flatMap (fun c => (c.toList.splitOn ',').map String.ofList)) = .ok selected)
    (built : Policy.build engine classes custom action = .ok (some policy)) :
    ∃ (b : Builder) (patterns : List Pattern),
      b.Holds engine (rulesOf selected custom) patterns ∧ b.alternatives ≠ [] ∧
      engine.compile (join b.alternatives) = some policy.re ∧ policy.labels = b.labels ∧
      policy.groups = b.groups ∧ policy.luhnGated = b.luhnGated := by
  unfold Policy.build at built
  cases parsed : Action.parse action with
  | none =>
    rw [parsed] at built
    cases built
  | some action =>
    simp only [parsed, chosen] at built
    obtain ⟨classRules, builtins, built⟩ := ok_of_bind built
    obtain ⟨b, customs, built⟩ := ok_of_bind built
    obtain ⟨first, classesHold⟩ :=
      Builder.holds_empty.foldlM (fun c => some (Class.spec c)) pushes_of_pushClass builtins
    obtain ⟨second, holds⟩ := classesHold.foldlM customSpec pushes_of_pushCustom customs
    by_cases isEmpty : b.alternatives.isEmpty
    · rw [if_pos isEmpty] at built
      cases built
    · rw [if_neg isEmpty] at built
      cases compiles : engine.compile (join b.alternatives) with
      | none =>
        rw [compiles] at built
        cases built
      | some re =>
        rw [compiles] at built
        cases built
        refine ⟨b, first ++ second, ?_, ?_, compiles, rfl, rfl, rfl⟩
        · simpa [rulesOf] using holds
        · simpa using isEmpty

end Built

/-! ## Whose hit it is -/

/-- What a hit of the `k`-th rule makes of a text: its own label, its own count, and its own
check of the value. -/
def RuleSpec.scrubbed (rule : RuleSpec) (deps : Deps) (action : Action) (text : List Char)
    (st : Scrubbing) (k i j : Nat) : Scrubbing :=
  if rule.luhnGated && !luhnValid (slice text i j) then st
  else
    { out := some (st.out.getD [] ++ slice text st.last i ++
        placeholder deps action rule.label (slice text i j))
      last := j
      counts := st.counts.insert k (st.counts.getD k 0 + 1) }

/-- A match counts for the rule whose pattern is the alternative that produced it. -/
def Policy.Attributes (engine : RegexEngine) (policy : Policy) (rules : List RuleSpec)
    (text : List Char) (caps : Captures) : Prop :=
  ∀ k i j, Pattern.Produced text policy.re 1 k i j caps →
    ∃ rule pattern, rules[k]? = some rule ∧ engine.compile rule.text = some pattern ∧
      policy.re.alternatives[k]? = some pattern.group ∧ policy.hit caps = some (k, i, j) ∧
      ∀ deps st, policy.scrubNext deps text st caps =
        rule.scrubbed deps policy.action text st k i j

section Hits

variable {engine : RegexEngine} {policy : Policy} {text : List Char} {caps : Captures}

/-- Once the alternation is the patterns in their parentheses, the numbers are right. -/
theorem attributes_of_alternatives {b : Builder} {rules : List RuleSpec} {patterns : List Pattern}
    (holds : b.Holds engine rules patterns) (labels : policy.labels = b.labels)
    (groups : policy.groups = b.groups) (luhnGated : policy.luhnGated = b.luhnGated)
    (alternatives : policy.re.alternatives = patterns.map Pattern.group) :
    policy.Attributes engine rules text caps := by
  intro k i j produced
  have hit : policy.hit caps = some (k, i, j) := by
    refine Pattern.firstGroup_of_produced ?_ ?_ produced
    · intro a listed
      rw [alternatives] at listed
      obtain ⟨p, -, isGroup⟩ := List.mem_map.mp listed
      exact ⟨p, isGroup.symm⟩
    · rw [groups, holds.groups, alternatives]
  obtain ⟨a, listed, -⟩ := produced
  have parallel := congrArg (fun entries => entries[k]?) holds.compiled
  have grouped := listed
  simp only [alternatives, List.getElem?_map, Option.map_eq_some_iff] at grouped
  obtain ⟨p, isPattern, rfl⟩ := grouped
  simp only [List.getElem?_map, isPattern, Option.map_some, Option.map_eq_some_iff] at parallel
  obtain ⟨rule, isRule, compiles⟩ := parallel
  refine ⟨rule, p, isRule, compiles, listed, hit, fun deps st => ?_⟩
  have label : policy.labels.getD k "" = rule.label := by
    simp [labels, holds.labels, List.getD_eq_getElem?_getD, isRule]
  have gated : policy.luhnGated.getD k false = rule.luhnGated := by
    simp [luhnGated, holds.luhnGated, List.getD_eq_getElem?_getD, isRule]
  simp only [Policy.scrubNext, RuleSpec.scrubbed, hit, label, gated]

/-- No built-in pattern has a comment. -/
theorem Class.closed (documented : engine.Documented) (c : Class) :
    engine.endsInComment c.spec.text = false := by
  have noSign : '#' ∉ c.spec.text.toList := by cases c <;> decide +kernel
  cases isComment : engine.endsInComment c.spec.text with
  | false => rfl
  | true => exact absurd (documented.comment isComment) noSign

theorem closed_of_custom (documented : engine.Documented) {selected : List Class}
    {custom : List String}
    (closed : ∀ rule ∈ (custom.filterMap customSpec).dropLast,
      engine.endsInComment rule.text = false)
    {rule : RuleSpec} (listed : rule ∈ (rulesOf selected custom).dropLast) :
    engine.endsInComment rule.text = false := by
  have builtin {rule : RuleSpec}
      (mem : rule ∈ (Class.all.filter (fun c => c ∈ selected)).map Class.spec) :
      engine.endsInComment rule.text = false := by
    obtain ⟨c, -, rfl⟩ := List.mem_map.mp mem
    exact c.closed documented
  unfold rulesOf at listed
  by_cases noCustom : custom.filterMap customSpec = []
  · rw [noCustom, List.append_nil] at listed
    exact builtin (List.mem_of_mem_dropLast listed)
  · rw [List.dropLast_append_of_ne_nil noCustom] at listed
    cases List.mem_append.mp listed with
    | inl ofClass => exact builtin ofClass
    | inr ofCustom => exact closed rule ofCustom

end Hits

/-- Every match is produced by an alternative of the policy, and counts for the rule of that
alternative, whatever groups the patterns bring along, if no custom pattern but the last ends
in a comment. -/
theorem hits_attributed {engine : RegexEngine} (documented : engine.Documented)
    {classes custom : List String} {action : String} {selected : List Class} {policy : Policy}
    (chosen : selectClasses
      (classes.flatMap (fun c => (c.toList.splitOn ',').map String.ofList)) = .ok selected)
    (built : Policy.build engine classes custom action = .ok (some policy))
    (closed : ∀ rule ∈ (custom.filterMap customSpec).dropLast,
      engine.endsInComment rule.text = false)
    {text : List Char} {caps : Captures} (found : caps ∈ engine.capturesIter policy.re text) :
    (∃ k i j, Pattern.Produced text policy.re 1 k i j caps) ∧
      policy.Attributes engine (rulesOf selected custom) text caps := by
  obtain ⟨b, patterns, holds, nonempty, compiles, labels, groups, luhnGated⟩ :=
    holds_of_build chosen built
  obtain ⟨i, j, takes⟩ := documented.captures found
  obtain ⟨k, produced⟩ := takes.produced
  refine ⟨⟨k, i, j, produced⟩, ?_⟩
  have texts : b.alternatives = ((rulesOf selected custom).map RuleSpec.text).map wrap := by
    rw [holds.alternatives, List.map_map]
    rfl
  have alternatives : policy.re.alternatives = patterns.map Pattern.group := by
    rw [texts] at compiles nonempty
    refine documented.alternation (mt List.map_eq_nil_iff.mpr nonempty) ?_ ?_ compiles
    · rw [List.map_map]
      exact holds.compiled
    · intro t listed
      rw [← List.map_dropLast] at listed
      obtain ⟨rule, mem, rfl⟩ := List.mem_map.mp listed
      exact closed_of_custom documented closed mem
  exact attributes_of_alternatives holds labels groups luhnGated alternatives

/-! ## Two policies -/

namespace TablePolicies

/-- A pattern without groups, of the texts it matches. -/
def plain (p : List Char → Bool) : Pattern := .piece (fun text i j => p (slice text i j))

/-- `(?x)a # c` -/
def a : Pattern := plain (· == ['a'])

/-- `foo
bar` -/
def fooBar : Pattern := plain (· == "foo
bar".toList)

/-- What `(?x)a # c)|(foo
bar` is: the comment goes on to the end of the line. -/
def abar : Pattern := plain (· == "abar".toList)

/-- `TCK-[0-9]+` -/
def ticket : Pattern :=
  plain (fun w => w.take 4 == "TCK-".toList && !(w.drop 4).isEmpty && (w.drop 4).all Char.isDigit)

/-- `(us|eu)-[a-z]+` -/
def region : Pattern :=
  .seq (.group (plain (fun w => w == "us".toList || w == "eu".toList)))
    (plain (fun w => w.take 1 == ['-'] && !(w.drop 1).isEmpty && (w.drop 1).all Char.isLower))

def compile (t : String) : Option Pattern :=
  if t = "(?x)a # c" then some a
  else if t = "foo
bar" then some fooBar
  else if t = "TCK-[0-9]+" then some ticket
  else if t = "(us|eu)-[a-z]+" then some region
  else if t = "((?x)a # c)|(foo
bar)|(TCK-[0-9]+)" then some (.alt abar.group ticket.group)
  else if t = "((us|eu)-[a-z]+)|(TCK-[0-9]+)" then some (.alt region.group ticket.group)
  else none

/-- The whole text, by a last alternative without groups of its own. -/
def capturesIter : Pattern → List Char → List Captures
  | .alt a (.group (.piece accepts)), text =>
    if accepts text 0 text.length then
      [Function.update (fun _ => none) (1 + a.groups) (some (0, text.length))]
    else []
  | _, _ => []

def engine : RegexEngine where
  compile := compile
  capturesIter := capturesIter
  endsInComment := fun t => t = "(?x)a # c"

theorem takes_of_capturesIter {p : Pattern} {text : List Char} {caps : Captures}
    (found : caps ∈ capturesIter p text) : ∃ i j, p.Takes text 1 i j caps := by
  unfold capturesIter at found
  split at found
  · split at found
    · rename_i accepted
      rw [List.mem_singleton.mp found]
      exact ⟨0, _, .right (.group (.piece accepted))⟩
    · contradiction
  · contradiction

def texts : List String :=
  ["(?x)a # c", "foo
bar", "TCK-[0-9]+", "(us|eu)-[a-z]+",
    "((?x)a # c)|(foo
bar)|(TCK-[0-9]+)", "((us|eu)-[a-z]+)|(TCK-[0-9]+)"]

theorem mem_texts {t : String} {p : Pattern} (compiles : compile t = some p) : t ∈ texts := by
  unfold compile at compiles
  split_ifs at compiles <;> simp [texts, *]

/-- An alternation begins with its first pattern in parentheses. -/
theorem wrap_prefix_join (t : String) (rest : List String) :
    (wrap t).toList <+: (join ((t :: rest).map wrap)).toList := by
  unfold join
  cases rest with
  | nil => simp
  | cons u rest =>
    rw [List.map_cons, List.map_cons, String.intercalate_cons_cons, String.append_assoc,
      String.toList_append]
    exact List.prefix_append _ _

theorem join_cons_cons (t u : String) (rest : List String) :
    join ((t :: u :: rest).map wrap) = wrap t ++ ("|" ++ join ((u :: rest).map wrap)) := by
  unfold join
  rw [List.map_cons, List.map_cons, String.intercalate_cons_cons, String.append_assoc]

/-- None of the patterns is an alternation of others, but for the two that are made so. -/
theorem joined {t : String} {rest : List String} {re : Pattern} (listed : t ∈ texts)
    (compiles : compile (join ((t :: rest).map wrap)) = some re) :
    (t = "(?x)a # c" ∧ rest ≠ []) ∨
      (t = "(us|eu)-[a-z]+" ∧ join (rest.map wrap) = wrap "TCK-[0-9]+" ∧
        re = .alt region.group ticket.group) := by
  have first := wrap_prefix_join t rest
  have whole := mem_texts compiles
  have begins : ∀ s ∈ texts, ∀ t ∈ texts, (wrap t).toList <+: s.toList →
      s = "((?x)a # c)|(foo
bar)|(TCK-[0-9]+)" ∧ t = "(?x)a # c" ∨
        s = "((us|eu)-[a-z]+)|(TCK-[0-9]+)" ∧ t = "(us|eu)-[a-z]+" := by
    decide
  cases begins _ whole t listed first with
  | inl commented =>
    refine .inl ⟨commented.2, fun alone => ?_⟩
    rw [commented.2, alone] at commented
    exact absurd commented.1 (by decide)
  | inr regions =>
    obtain ⟨isJoined, rfl⟩ := regions
    rw [isJoined] at compiles
    cases rest with
    | nil => exact absurd isJoined (by decide)
    | cons u rest =>
      rw [join_cons_cons] at isJoined
      have split : "((us|eu)-[a-z]+)|(TCK-[0-9]+)" = wrap "(us|eu)-[a-z]+" ++
          ("|" ++ wrap "TCK-[0-9]+") := by
        decide
      rw [split, String.append_right_inj, String.append_right_inj] at isJoined
      refine .inr ⟨rfl, isJoined, ?_⟩
      simpa [compile] using compiles.symm

theorem joined_ticket {u : String} {rest : List String} (listed : u ∈ texts)
    (isTicket : join ((u :: rest).map wrap) = wrap "TCK-[0-9]+") :
    u = "TCK-[0-9]+" ∧ rest = [] := by
  have first := wrap_prefix_join u rest
  rw [isTicket] at first
  have only : ∀ u ∈ texts, (wrap u).toList <+: (wrap "TCK-[0-9]+").toList → u = "TCK-[0-9]+" := by
    decide
  have isFirst := only u listed first
  subst isFirst
  refine ⟨rfl, ?_⟩
  cases rest with
  | nil => rfl
  | cons v rest =>
    have lengths := congrArg String.length isTicket
    rw [join_cons_cons, String.length_append, String.length_append] at lengths
    have bar : "|".length = 1 := rfl
    omega

theorem documented : engine.Documented where
  captures := takes_of_capturesIter
  alternation := by
    intro texts patterns re nonempty compiled closed compiles
    have listed {t : String} (mem : t ∈ texts) : t ∈ TablePolicies.texts := by
      have entry : compile t ∈ patterns.map some := by
        rw [← show texts.map compile = patterns.map some from compiled]
        exact List.mem_map_of_mem mem
      obtain ⟨p, -, isCompiled⟩ := List.mem_map.mp entry
      exact mem_texts isCompiled.symm
    cases texts with
    | nil => contradiction
    | cons t rest =>
      -- two joins compile: a comment that would swallow the bracket, or the two rules together
      cases joined (listed (List.mem_cons_self ..)) compiles with
      | inl commented =>
        obtain ⟨rfl, more⟩ := commented
        have inside : "(?x)a # c" ∈ ("(?x)a # c" :: rest).dropLast := by
          rw [List.dropLast_cons_of_ne_nil more]
          exact List.mem_cons_self ..
        exact absurd (closed _ inside) (by decide)
      | inr regions =>
        obtain ⟨rfl, isTicket, rfl⟩ := regions
        cases rest with
        | nil => exact absurd isTicket (by decide)
        | cons u rest =>
          obtain ⟨rfl, rfl⟩ := joined_ticket
            (listed (List.mem_cons_of_mem _ (List.mem_cons_self ..))) isTicket
          have both : patterns = [region, ticket] := by
            have pair : [region, ticket].map some = patterns.map some := compiled
            exact (List.map_injective_iff.mpr (Option.some_injective _) pair).symm
          rw [both]
          rfl
  comment := by
    intro t isComment
    rw [show t = "(?x)a # c" from of_decide_eq_true isComment]
    decide

/-- A policy of `x=(?x)a # c`, `y=foo
bar` and `t=TCK-[0-9]+`: of its three rules the comment
swallows the second. -/
def swallowed : Policy where
  re := .alt abar.group ticket.group
  labels := ["x", "y", "t"]
  groups := [1, 2, 3]
  luhnGated := [false, false, false]
  action := .redact

theorem build_swallowed : Policy.build engine [] ["x=(?x)a # c", "y=foo
bar", "t=TCK-[0-9]+"]
    "redact" = .ok (some swallowed) := by
  rfl

/-- A policy whose first rule has a group of its own. -/
def grouped : Policy where
  re := .alt region.group ticket.group
  labels := ["region", "ticket"]
  groups := [1, 3]
  luhnGated := [false, false]
  action := .redact

theorem build_grouped : Policy.build engine [] ["region=(us|eu)-[a-z]+", "ticket=TCK-[0-9]+"]
    "redact" = .ok (some grouped) := by
  rfl

theorem hits_attributed_grouped :
    engine.capturesIter grouped.re "TCK-9".toList ≠ [] ∧
      ∀ caps ∈ engine.capturesIter grouped.re "TCK-9".toList,
        (∃ k i j, Pattern.Produced "TCK-9".toList grouped.re 1 k i j caps) ∧
          grouped.Attributes engine
            (rulesOf [] ["region=(us|eu)-[a-z]+", "ticket=TCK-[0-9]+"]) "TCK-9".toList caps := by
  have closed : ∀ rule ∈ (["region=(us|eu)-[a-z]+", "ticket=TCK-[0-9]+"].filterMap
      customSpec).dropLast, engine.endsInComment rule.text = false := by
    decide
  have chosen : selectClasses
      (([] : List String).flatMap (fun c => (c.toList.splitOn ',').map String.ofList)) = .ok [] :=
    rfl
  refine ⟨by simp [engine, capturesIter, grouped, ticket, plain, slice], fun caps found => ?_⟩
  exact hits_attributed documented chosen build_grouped closed found

/-- The text is the last rule's, and the hit is counted for the one before it. -/
theorem swallowed_misattributes :
    engine.Documented ∧
      Policy.build engine [] ["x=(?x)a # c", "y=foo
bar", "t=TCK-[0-9]+"] "redact" =
        .ok (some swallowed) ∧
      ∃ caps ∈ engine.capturesIter swallowed.re "TCK-9".toList,
        Pattern.Produced "TCK-9".toList swallowed.re 1 1 0 5 caps ∧
          swallowed.re.alternatives[1]? = some ticket.group ∧
          engine.compile "TCK-[0-9]+" = some ticket ∧
          swallowed.hit caps = some (1, 0, 5) ∧ swallowed.labels[1]? = some "y" ∧
          ¬ swallowed.Attributes engine
            (rulesOf [] ["x=(?x)a # c", "y=foo
bar", "t=TCK-[0-9]+"]) "TCK-9".toList caps := by
  have produced : Pattern.Produced "TCK-9".toList swallowed.re 1 1 0 5
      (Function.update (fun _ => none) 2 (some (0, 5))) :=
    ⟨ticket.group, rfl, .group (.piece (by decide))⟩
  refine ⟨documented, build_swallowed, _, List.mem_singleton_self _, produced, rfl, rfl, rfl, rfl,
    fun attributes => ?_⟩
  obtain ⟨rule, pattern, isRule, compiles, listed, -⟩ := attributes 1 0 5 produced
  have second : (rulesOf [] ["x=(?x)a # c", "y=foo
bar", "t=TCK-[0-9]+"])[1]? =
      some ⟨"y", "foo
bar", false⟩ := by
    decide
  rw [second, Option.some.injEq] at isRule
  rw [← isRule] at compiles
  have isFooBar : fooBar = pattern := Option.some.inj compiles
  have isTicket : ticket = pattern := Pattern.group.inj (Option.some.inj listed)
  rw [← isFooBar] at isTicket
  -- one of them matches the text and the other does not
  have same := congrFun (congrFun (congrFun (Pattern.piece.inj isTicket) "TCK-9".toList) 0) 5
  exact absurd same (by decide)

end TablePolicies

end Evald.Redact
