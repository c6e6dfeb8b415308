import Evald.Lib.Regex
import Evald.Lib.Text
import Evald.Deps

/-! # Redaction

A redactor scans a text once, with all its rules.  What a rule matches is replaced, except
a candidate for a card number that fails the checksum: it is left as it is, and the scan
goes on behind it.
-/

namespace Evald.Redact

open Evald.Lib

/-- A category of sensitive value. -/
inductive Class where
  | email
  | creditCard
  | ssn
  | phone
  | ip
  | apiKey
  | jwt
  deriving DecidableEq

namespace Class

def all : List Class := [email, creditCard, ssn, phone, ip, apiKey, jwt]

def asStr : Class → String
  | email => "email"
  | creditCard => "credit_card"
  | ssn => "ssn"
  | phone => "phone"
  | ip => "ip"
  | apiKey => "api_key"
  | jwt => "jwt"

def parse (s : String) : Option Class := all.find? (fun c => c.asStr = asciiLowercase (trim s))

end Class

/-! ## The patterns -/

section Patterns

open Evald.Lib.Regex

def digit : Regex := one Char.isDigit

/-- `[A-Za-z0-9_-]` -/
def tokenChar (c : Char) : Bool := c.isAlphanum || c = '_' || c = '-'

/-- `[ \-]` -/
def separator : Regex := one (fun c => c = ' ' || c = '-')

def hex : Regex := one (fun c => c.isDigit || ('A' ≤ c && c ≤ 'F') || ('a' ≤ c && c ≤ 'f'))

/-- A number up to 255. -/
def octet : Regex :=
  anyOf
    [concat [literal "25", one (fun c => '0' ≤ c && c ≤ '5')],
      concat [literal "2", one (fun c => '0' ≤ c && c ≤ '4'), digit],
      concat [literal "1", times digit 2],
      concat [opt (one (fun c => '1' ≤ c && c ≤ '9')), digit]]

def Class.pattern : Class → Regex
  | jwt => concat [literal "eyJ", atLeast tokenChar 8, literal ".", atLeast tokenChar 8,
      literal ".", atLeast tokenChar 8]
  | apiKey =>
    anyOf
      [concat [literal "sk-", atLeast tokenChar 16],
        concat [literal "AKIA", times (one (fun c => c.isDigit || c.isUpper)) 16],
        concat [literal "gh", one (fun c => "pousr".toList.contains c), literal "_",
          atLeast Char.isAlphanum 20],
        concat [literal "xox", one (fun c => "abpr".toList.contains c), literal "-",
          atLeast (fun c => c.isAlphanum || c = '-') 10]]
  | email =>
    concat
      [atLeast (fun c => c.isAlphanum || "._%+-".toList.contains c) 1, literal "@",
        atLeast (fun c => c.isAlphanum || c = '.' || c = '-') 1, literal ".",
        atLeast Char.isAlpha 2]
  | ssn => concat [times digit 3, literal "-", times digit 2, literal "-", times digit 4]
  | creditCard => concat [digit, between (concat [opt separator, digit]) 12 18]
  | phone =>
    anyOf
      [concat [literal "+", one (fun c => '1' ≤ c && c ≤ '9'), between digit 7 14],
        concat [opt (literal "("), times digit 3, opt (literal ")"), separator, times digit 3,
          literal "-", times digit 4]]
  | ip =>
    alt (concat [times (concat [octet, literal "."]) 3, octet])
      (concat [between (concat [between hex 1 4, literal ":"]) 2 7, between hex 1 4])

theorem Class.consumes_pattern (c : Class) : c.pattern.consumes = true := by
  cases c <;> decide

end Patterns

/-! ## Policies -/

inductive Action where
  | redact
  | hash
  | drop
  deriving DecidableEq

def Action.parse (s : String) : Option Action :=
  let name := asciiLowercase (trim s)
  if name = "redact" then some .redact
  else if name = "hash" then some .hash
  else if name = "drop" then some .drop
  else none

/-- One alternative of the scan.  No rule matches nothing. -/
structure Rule where
  label : String
  pattern : Regex
  luhnGated : Bool
  consumes : pattern.consumes = true

def Class.rule (c : Class) : Rule where
  label := c.asStr
  pattern := c.pattern
  luhnGated := c = creditCard
  consumes := c.consumes_pattern

/-- The rules in the order of the alternation. -/
structure Redactor where
  rules : List Rule
  action : Action

inductive RedactError where
  | unknownClass (entry : String)
  | unknownAction (action : String)
  deriving DecidableEq

/-- The classes a list of entries selects. -/
def selectClasses : List String → Except RedactError (List Class)
  | [] => .ok []
  | entry :: rest => do
    let entry := trim entry
    if entry = "" then selectClasses rest
    else if eqIgnoreAsciiCase entry "all" then
      let selected ← selectClasses rest
      pure (Class.all ++ selected)
    else
      match Class.parse entry with
      | none => throw (.unknownClass entry)
      | some c =>
        let selected ← selectClasses rest
        pure (c :: selected)

/-- The policy of the built-in classes that are selected. -/
def Redactor.ofClasses (selected : List Class) (action : Action) : Redactor :=
  { rules := (Class.all.filter (fun c => c ∈ selected)).map Class.rule
    action := action }

/-- No class, no policy. -/
def Redactor.build (classes : List String) (action : String) :
    Except RedactError (Option Redactor) := do
  match Action.parse action with
  | none => throw (.unknownAction action)
  | some action =>
    let entries := classes.flatMap (fun c => (c.toList.splitOn ',').map String.ofList)
    let selected ← selectClasses entries
    let redactor := Redactor.ofClasses selected action
    pure (if redactor.rules.isEmpty then none else some redactor)

/-- Every policy that is built is of built-in classes. -/
theorem ofClasses_of_build {classes : List String} {action : String} {r : Redactor}
    (built : Redactor.build classes action = .ok (some r)) :
    ∃ selected action, r = Redactor.ofClasses selected action := by
  unfold Redactor.build at built
  cases parsed : Action.parse action with
  | none =>
    rw [parsed] at built
    cases built
  | some action =>
    simp only [parsed] at built
    cases chosen : selectClasses
        (classes.flatMap (fun c => (c.toList.splitOn ',').map String.ofList)) with
    | error e =>
      rw [chosen] at built
      cases built
    | ok selected =>
      rw [chosen] at built
      refine ⟨selected, action, ?_⟩
      change Except.ok (if _ then none else some (Redactor.ofClasses selected action)) = _ at built
      split at built
      · cases built
      · cases built
        rfl

/-! ## The checksum -/

def digitsOf (w : List Char) : List Nat :=
  w.filterMap (fun c => if c.isDigit then some (c.toNat - 48) else none)

/-- Every second digit from the right counts double. -/
def luhnTerm (x : Nat × Nat) : Nat :=
  if x.2 % 2 = 1 then
    let doubled := x.1 * 2
    if 9 < doubled then doubled - 9 else doubled
  else x.1

/-- The Luhn checksum over the digits, whatever separates them. -/
def luhnValid (w : List Char) : Bool :=
  let digits := digitsOf w
  if 13 ≤ digits.length ∧ digits.length ≤ 19 then
    (digits.reverse.zipIdx.map luhnTerm).sum % 10 = 0
  else false

/-! ## Rewriting a text -/

def shortHash (deps : Deps) (value : List Char) : String :=
  hexEncode ((deps.sha256 (utf8 (String.ofList value))).take 8)

def placeholder (deps : Deps) (action : Action) (label : String) (value : List Char) : List Char :=
  match action with
  | .redact => ("[REDACTED:" ++ label ++ "]").toList
  | .hash => ("[" ++ label ++ ":" ++ shortHash deps value ++ "]").toList
  | .drop => []

/-- What has been written, up to where, and how often each rule was hit. -/
structure Scrubbing where
  out : Option (List Char) := none
  last : Nat := 0
  counts : Std.ExtTreeMap Nat Nat := ∅

namespace Redactor

variable (deps : Deps) (r : Redactor) (text : List Char)

def patterns : List Regex := r.rules.map Rule.pattern

/-- One match.  A gated one that fails the checksum is left alone. -/
def scrubNext (st : Scrubbing) (m : Found) : Scrubbing :=
  match r.rules[m.pattern]? with
  | none => st
  | some rule =>
    let value := slice text m.start m.stop
    if rule.luhnGated && !luhnValid value then st
    else
      { out := some (st.out.getD [] ++ slice text st.last m.start ++
          placeholder deps r.action rule.label value)
        last := m.stop
        counts := st.counts.insert m.pattern (st.counts.getD m.pattern 0 + 1) }

/-- The rewritten text and the hits of each rule; `none` when nothing was replaced. -/
def scrub (text : String) : Option (String × List (Nat × Nat)) :=
  let st := (scan r.patterns text.toList).foldl (scrubNext deps r text.toList) {}
  st.out.map (fun buf =>
    (String.ofList (buf ++ text.toList.drop st.last), st.counts.toList))

/-- What a scanned field is left as. -/
def rewrite (text : String) : String := ((r.scrub deps text).map Prod.fst).getD text

/-- The matches that are replaced: all but the gated ones that fail the checksum. -/
def replaces (m : Found) : Bool :=
  match r.rules[m.pattern]? with
  | none => false
  | some rule => !rule.luhnGated || luhnValid (slice text m.start m.stop)

def replaced : List Found := (scan r.patterns text).filter (r.replaces text)

end Redactor

/-! ## What is copied through -/

/-- The regions of a text between replaced matches, from `last` on. -/
def regionsFrom (length : Nat) : Nat → List Found → List (Nat × Nat)
  | last, [] => [(last, length)]
  | last, m :: rest => (last, m.start) :: regionsFrom length m.stop rest

/-- The regions that a scrub copies through unchanged. -/
def Redactor.keptRegions (r : Redactor) (text : List Char) : List (Nat × Nat) :=
  regionsFrom text.length 0 (r.replaced text)

/-- A text with the regions between some matches copied and the matches replaced. -/
def rewriteFrom (deps : Deps) (r : Redactor) (text : List Char) : Nat → List Found → List Char
  | last, [] => slice text last text.length
  | last, m :: rest =>
    slice text last m.start ++
      placeholder deps r.action ((r.rules[m.pattern]?).elim "" Rule.label)
        (slice text m.start m.stop) ++
      rewriteFrom deps r text m.stop rest

section Scrub

variable {deps : Deps} {r : Redactor} {text : List Char}

variable (deps r text) in
theorem foldl_scrubNext (found : List Found) (st : Scrubbing) :
    let st' := found.foldl (r.scrubNext deps text) st
    let hits := found.filter (r.replaces text)
    st'.out.getD [] ++ slice text st'.last text.length =
        st.out.getD [] ++ rewriteFrom deps r text st.last hits ∧
      (st'.out.isSome = (st.out.isSome || !hits.isEmpty)) := by
  -- on the candidates: one with no rule or a bad checksum leaves the text as it is
  induction found generalizing st with
  | nil => simp [rewriteFrom]
  | cons m found inductionHypothesis =>
    simp only [List.foldl_cons, List.filter_cons]
    cases place : r.rules[m.pattern]? with
    | none =>
      have passed : r.scrubNext deps text st m = st := by simp [Redactor.scrubNext, place]
      have kept : r.replaces text m = false := by simp [Redactor.replaces, place]
      rw [passed, kept]
      exact inductionHypothesis st
    | some rule =>
      by_cases rejected : rule.luhnGated && !luhnValid (slice text m.start m.stop)
      · have passed : r.scrubNext deps text st m = st := by
          simp [Redactor.scrubNext, place, rejected]
        have kept : r.replaces text m = false := by
          simpa [Redactor.replaces, place] using rejected
        rw [passed, kept]
        exact inductionHypothesis st
      · have hit : r.replaces text m = true := by
          simpa [Redactor.replaces, place, Bool.or_eq_true, imp_iff_not_or] using rejected
        have written : r.scrubNext deps text st m =
            { out := some (st.out.getD [] ++ slice text st.last m.start ++
                placeholder deps r.action rule.label (slice text m.start m.stop))
              last := m.stop
              counts := st.counts.insert m.pattern (st.counts.getD m.pattern 0 + 1) } := by
          simp only [Redactor.scrubNext, place]
          exact if_neg rejected
        obtain ⟨rest, some⟩ := inductionHypothesis (r.scrubNext deps text st m)
        rw [hit]
        constructor
        · rw [rest, written]
          simp [rewriteFrom, place]
        · rw [some, written]
          simp

/-- What a scrub makes of a text. -/
theorem rewrite_eq (deps : Deps) (r : Redactor) (text : String) :
    r.rewrite deps text =
      String.ofList (rewriteFrom deps r text.toList 0 (r.replaced text.toList)) := by
  have whole (last : Nat) : slice text.toList last text.toList.length = text.toList.drop last :=
    List.take_of_length_le (by simp)
  obtain ⟨written, some⟩ := foldl_scrubNext deps r text.toList
    (scan r.patterns text.toList) {}
  unfold Redactor.rewrite Redactor.scrub Redactor.replaced
  simp only
  generalize (scan r.patterns text.toList).foldl (r.scrubNext deps text.toList) {} = st
    at written some ⊢
  rw [whole] at written
  cases out : st.out with
  | some buf =>
    simp only [out, Option.getD_some, Option.getD_none, List.nil_append] at written
    simp only [Option.map_some, Option.getD_some, written]
  | none =>
    have nothing : (scan r.patterns text.toList).filter (r.replaces text.toList) = [] := by
      simpa [out] using some
    rw [nothing, rewriteFrom, whole]
    simp

end Scrub

/-! ## What can be left -/

/-- A value a rule is there for; a card number passes the checksum. -/
def Redactor.Detectable (r : Redactor) (w : List Char) : Prop :=
  ∃ rule ∈ r.rules, rule.pattern.Matches w ∧ (rule.luhnGated = true → luhnValid w = true)

/-- No region that is copied through holds a detectable value. -/
def Redactor.Covers (r : Redactor) (text : List Char) : Prop :=
  ∀ region ∈ r.keptRegions text, ∀ w, w <:+: slice text region.1 region.2 → ¬ r.Detectable w

/-- A candidate that fails the checksum, and a detectable value that begins in it and
overlaps nothing that is replaced. -/
structure Redactor.Shields (r : Redactor) (text : List Char) (m : Found) (i j : Nat) : Prop where
  candidate : m ∈ scan r.patterns text
  rejected : r.replaces text m = false
  inside : m.start ≤ i ∧ i < m.stop
  within : i ≤ j ∧ j ≤ text.length
  detectable : r.Detectable (slice text i j)
  clear : ∀ hit ∈ r.replaced text, hit.stop ≤ i ∨ j ≤ hit.start

theorem infix_slice {text : List Char} {a b i j : Nat} (left : a ≤ i) (right : j ≤ b) :
    slice text i j <:+: slice text a b := by
  have part : slice text i j = ((slice text a b).drop (i - a)).take (j - i) := by
    unfold slice
    rw [List.drop_take, List.drop_drop, List.take_take, Nat.add_sub_cancel' left]
    congr 1
    omega
  rw [part]
  exact (List.take_prefix _ _).isInfix.trans (List.drop_suffix _ _).isInfix

theorem slice_of_infix {text w : List Char} {a b : Nat} (isInfix : w <:+: slice text a b) :
    ∃ i j, a ≤ i ∧ i ≤ j ∧ (j ≤ b ∨ w = []) ∧ slice text i j = w := by
  obtain ⟨before, after, split⟩ := isInfix
  refine ⟨a + before.length, a + before.length + w.length, by omega, by omega, ?_, ?_⟩
  · have lengths := congrArg List.length split
    have short : (slice text a b).length ≤ b - a := by simp [slice]
    simp only [List.length_append] at lengths
    cases w with
    | nil => exact .inr rfl
    | cons c w =>
      simp only [List.length_cons] at lengths ⊢
      omega
  · have whole : text.drop a = before ++ (w ++ (after ++ (text.drop a).drop (b - a))) := by
      rw [← List.append_assoc w, ← List.append_assoc before, ← List.append_assoc before, split]
      exact (List.take_append_drop (b - a) _).symm
    rw [slice, ← List.drop_drop, whole, List.drop_left, Nat.add_sub_cancel_left, List.take_left]

/-- Regions and replaced matches stand apart. -/
theorem regionsFrom_apart {length last : Nat} {hits : List Found}
    (sorted : hits.Pairwise (fun a b => a.stop ≤ b.start))
    (behind : ∀ m ∈ hits, last ≤ m.start) (proper : ∀ m ∈ hits, m.start < m.stop ∧ m.stop ≤ length)
    {region : Nat × Nat} (listed : region ∈ regionsFrom length last hits) :
    last ≤ region.1 ∧ region.2 ≤ length ∧
      ∀ m ∈ hits, m.stop ≤ region.1 ∨ region.2 ≤ m.start := by
  induction hits generalizing last with
  | nil =>
    rw [regionsFrom, List.mem_singleton] at listed
    simp [listed]
  | cons m hits inductionHypothesis =>
    obtain ⟨first, sorted⟩ := List.pairwise_cons.mp sorted
    have here := behind m List.mem_cons_self
    have size := proper m List.mem_cons_self
    cases listed with
    | head =>
      refine ⟨Nat.le_refl _, by simp only; omega, fun x member => .inr ?_⟩
      cases member with
      | head => exact Nat.le_refl _
      | tail _ later =>
        have apart := first x later
        show m.start ≤ x.start
        omega
    | tail _ later =>
      obtain ⟨lower, upper, apart⟩ := inductionHypothesis sorted first
        (fun x member => proper x (List.mem_cons_of_mem _ member)) later
      refine ⟨by omega, upper, fun x member => ?_⟩
      cases member with
      | head => exact .inl lower
      | tail _ later => exact apart x later

/-- A stretch that overlaps no replaced match is in one region. -/
theorem exists_region {length last i j : Nat} {hits : List Found} (lower : last ≤ i)
    (upper : j ≤ length) (clear : ∀ m ∈ hits, m.stop ≤ i ∨ j ≤ m.start) :
    ∃ region ∈ regionsFrom length last hits, region.1 ≤ i ∧ j ≤ region.2 := by
  induction hits generalizing last with
  | nil => exact ⟨_, List.mem_singleton_self _, lower, upper⟩
  | cons m hits inductionHypothesis =>
    cases clear m List.mem_cons_self with
    | inr before => exact ⟨_, List.mem_cons_self, lower, before⟩
    | inl after =>
      obtain ⟨region, listed, around⟩ := inductionHypothesis after
        (fun x member => clear x (List.mem_cons_of_mem _ member))
      exact ⟨region, List.mem_cons_of_mem _ listed, around⟩

theorem Redactor.patterns_consume (r : Redactor) : ∀ p ∈ r.patterns, p.consumes = true := by
  intro p listed
  obtain ⟨rule, -, rfl⟩ := List.mem_map.mp listed
  exact rule.consumes

/-- A scrub leaves a detectable value exactly when a rejected candidate shields one. -/
theorem Redactor.covers_iff (r : Redactor) (text : List Char) :
    r.Covers text ↔ ¬ ∃ m i j, r.Shields text m i j := by
  have consume := r.patterns_consume
  have sorted := (scan_sorted consume text).filter (r.replaces text)
  have proper : ∀ m ∈ r.replaced text, m.start < m.stop ∧ m.stop ≤ text.length := by
    intro m hit
    obtain ⟨nonempty, inText, -⟩ := scan_spec consume (List.mem_of_mem_filter hit)
    exact ⟨nonempty, inText⟩
  constructor
  · intro covers found
    obtain ⟨m, i, j, shields⟩ := found
    obtain ⟨region, listed, left, right⟩ :=
      exists_region (Nat.zero_le i) shields.within.2 shields.clear
    exact covers region listed _ (infix_slice left right) shields.detectable
  · intro unshielded region listed w isInfix detectable
    obtain ⟨rule, isRule, isMatch, passes⟩ := detectable
    have some : w ≠ [] := Regex.ne_nil_of_consumes rule.consumes isMatch
    obtain ⟨i, j, left, order, right, rfl⟩ := slice_of_infix isInfix
    obtain ⟨-, inText, apart⟩ := regionsFrom_apart sorted (fun m _ => Nat.zero_le _) proper listed
    have right := right.resolve_right some
    have longer : i < j ∧ i < text.length := by
      have positive := List.length_pos_iff.mpr some
      simp only [slice, List.length_take, List.length_drop] at positive
      omega
    -- some candidate stands around the place; it is replaced or it shields the text
    cases scan_complete consume longer.2 with
    | inr nothing =>
      exact nothing rule.pattern (List.mem_map_of_mem isRule) j isMatch
    | inl found =>
      obtain ⟨m, candidate, inside⟩ := found
      cases hit : r.replaces text m with
      | true =>
        have kept := apart m (List.mem_filter.mpr ⟨candidate, hit⟩)
        omega
      | false =>
        apply unshielded
        refine ⟨m, i, j, candidate, hit, inside, by omega, ⟨rule, isRule, isMatch, passes⟩, ?_⟩
        intro x replaced
        have kept := apart x replaced
        omega

/-- Without a gated rule nothing is rejected. -/
theorem Redactor.covers_of_ungated {r : Redactor}
    (ungated : ∀ rule ∈ r.rules, rule.luhnGated = false) (text : List Char) : r.Covers text := by
  rw [r.covers_iff]
  intro found
  obtain ⟨m, i, j, shields⟩ := found
  obtain ⟨-, -, p, place, -⟩ := scan_spec r.patterns_consume shields.candidate
  have rejected := shields.rejected
  rw [Redactor.patterns, List.getElem?_map, Option.map_eq_some_iff] at place
  obtain ⟨rule, isRule, -⟩ := place
  simp [Redactor.replaces, isRule, ungated rule (List.mem_of_getElem? isRule)] at rejected

/-- What a policy of built-in classes copies through unchanged holds no detectable value
exactly when no candidate that fails the checksum shields one. -/
theorem redaction_covers_iff (deps : Deps) (selected : List Class) (text : String) :
    (Redactor.ofClasses selected .redact).rewrite deps text =
        String.ofList (rewriteFrom deps (Redactor.ofClasses selected .redact) text.toList 0
          ((Redactor.ofClasses selected .redact).replaced text.toList)) ∧
      ((Redactor.ofClasses selected .redact).Covers text.toList ↔
        ¬ ∃ m i j, (Redactor.ofClasses selected .redact).Shields text.toList m i j) :=
  ⟨rewrite_eq deps _ text, Redactor.covers_iff _ text.toList⟩

/-- The digit in front makes a card number part of a candidate that fails, and the candidate
in front of a social security number takes its digits. -/
theorem rejected_candidate_shields :
    ¬ (Redactor.ofClasses [.creditCard] .redact).Covers "1 4111111111111111".toList ∧
      ¬ (Redactor.ofClasses [.creditCard, .ssn] .redact).Covers "10 123-45-6789 123".toList := by
  constructor
  · intro covers
    apply covers (0, 18) _ "4111111111111111".toList
    · decide
    · exact ⟨Class.creditCard.rule, List.mem_map_of_mem (by decide), by decide,
        by decide⟩
    · decide
  · intro covers
    apply covers (0, 18) _ "123-45-6789".toList
    · decide
    · exact ⟨Class.ssn.rule, List.mem_map_of_mem (by decide), by decide, by decide⟩
    · decide

end Evald.Redact
