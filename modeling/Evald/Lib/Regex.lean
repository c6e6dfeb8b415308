import Mathlib.Data.List.Basic

/-! # Patterns and their matches

A pattern prefers its alternatives in order and repeats greedily: `rests` lists what is
left of a text after each match at its front, the preferred one first, and `mem_rests`
says that these are the matches of the pattern's language.  `scan` finds the matches of
several patterns from left to right, none inside another.
-/

namespace Evald.Lib

inductive Regex where
  | empty
  /-- One character of a class. -/
  | one (p : Char → Bool)
  /-- Any number of characters of a class, as many as there are. -/
  | many (p : Char → Bool)
  | seq (a b : Regex)
  /-- `b` only where `a` does not lead to a match. -/
  | alt (a b : Regex)

namespace Regex

/-! ## Derived patterns -/

/-- `a?` -/
def opt (a : Regex) : Regex := alt a empty

/-- `a{n}` -/
def times (a : Regex) : Nat → Regex
  | 0 => empty
  | n + 1 => seq a (times a n)

/-- `a{0,n}` -/
def upTo (a : Regex) : Nat → Regex
  | 0 => empty
  | n + 1 => opt (seq a (upTo a n))

/-- `a{m,n}` -/
def between (a : Regex) (m n : Nat) : Regex := seq (times a m) (upTo a (n - m))

/-- `[…]{n,}` -/
def atLeast (p : Char → Bool) (n : Nat) : Regex := seq (times (one p) n) (many p)

def literal (text : String) : Regex :=
  text.toList.foldr (fun c rest => seq (one (· = c)) rest) empty

def anyOf : List Regex → Regex
  | [] => one (fun _ => false)
  | [a] => a
  | a :: rest => alt a (anyOf rest)

def concat (parts : List Regex) : Regex := parts.foldr seq empty

/-! ## The language -/

@[grind =] def Matches : Regex → List Char → Prop
  | empty, w => w = []
  | one p, w => ∃ c, w = [c] ∧ p c = true
  | many p, w => ∀ c ∈ w, p c = true
  | seq a b, w => ∃ u v, w = u ++ v ∧ a.Matches u ∧ b.Matches v
  | alt a b, w => a.Matches w ∨ b.Matches w

/-- No match is empty. -/
def consumes : Regex → Bool
  | empty => false
  | one _ => true
  | many _ => false
  | seq a b => a.consumes || b.consumes
  | alt a b => a.consumes && b.consumes

theorem ne_nil_of_consumes {r : Regex} {w : List Char} (consumes : r.consumes = true)
    (isMatch : r.Matches w) : w ≠ [] := by
  induction r generalizing w with
  | empty => cases consumes
  | many p => cases consumes
  | one p =>
    obtain ⟨c, rfl, -⟩ := isMatch
    simp
  | seq a b aHypothesis bHypothesis =>
    obtain ⟨u, v, rfl, first, second⟩ := isMatch
    simp only [Regex.consumes, Bool.or_eq_true] at consumes
    cases consumes with
    | inl left => simp [aHypothesis left first]
    | inr right => simp [bHypothesis right second]
  | alt a b aHypothesis bHypothesis =>
    simp only [Regex.consumes, Bool.and_eq_true] at consumes
    cases isMatch with
    | inl left => exact aHypothesis consumes.1 left
    | inr right => exact bHypothesis consumes.2 right

/-! ## Matching at the front of a text -/

def manyRests (p : Char → Bool) : List Char → List (List Char)
  | [] => [[]]
  | c :: s => if p c then manyRests p s ++ [c :: s] else [c :: s]

/-- What each match at the front of a text leaves of it, the preferred match first. -/
def rests : Regex → List Char → List (List Char)
  | empty, s => [s]
  | one _, [] => []
  | one p, c :: s => if p c then [s] else []
  | many p, s => manyRests p s
  | seq a b, s => (a.rests s).flatMap b.rests
  | alt a b, s => a.rests s ++ b.rests s

theorem mem_manyRests {p : Char → Bool} {s t : List Char} :
    t ∈ manyRests p s ↔ ∃ w, (∀ c ∈ w, p c = true) ∧ w ++ t = s := by
  induction s with
  | nil =>
    simp only [manyRests, List.mem_singleton]
    constructor
    · intro ended
      exact ⟨[], by simp, by simp [ended]⟩
    · intro found
      obtain ⟨w, -, split⟩ := found
      exact (List.append_eq_nil_iff.mp split).2
  | cons c s inductionHypothesis =>
    -- a match is empty, or begins with `c`
    have cases : (∃ w, (∀ c ∈ w, p c = true) ∧ w ++ t = c :: s) ↔
        t = c :: s ∨ p c = true ∧ ∃ w, (∀ c ∈ w, p c = true) ∧ w ++ t = s := by
      constructor
      · intro ⟨w, all, split⟩
        cases w with
        | nil => exact .inl split
        | cons d w =>
          rw [List.cons_append, List.cons.injEq] at split
          rw [← split.1]
          exact .inr ⟨all d List.mem_cons_self, w,
            fun x member => all x (List.mem_cons_of_mem _ member), split.2⟩
      · intro either
        cases either with
        | inl whole => exact ⟨[], by simp, whole⟩
        | inr more =>
          obtain ⟨here, w, all, split⟩ := more
          exact ⟨c :: w, by simpa [here] using all, by simp [split]⟩
    rw [cases, ← inductionHypothesis, manyRests]
    split
    · next here => simp [here, or_comm]
    · next here => simp [here]

/-- The texts left are those behind a match. -/
theorem mem_rests {r : Regex} {s t : List Char} :
    t ∈ r.rests s ↔ ∃ w, r.Matches w ∧ w ++ t = s := by
  -- on the expression, one matched word for each rest
  induction r generalizing s t with
  | empty =>
    simp only [rests, List.mem_singleton, Matches]
    simp [eq_comm]
  | one p =>
    cases s with
    | nil =>
      simp only [rests, List.not_mem_nil, false_iff]
      intro found
      obtain ⟨w, ⟨c, isOne, -⟩, split⟩ := found
      simp [isOne] at split
    | cons c s =>
      simp only [rests, Matches]
      constructor
      · intro member
        split at member
        · next here =>
          rw [List.mem_singleton] at member
          exact ⟨[c], ⟨c, rfl, here⟩, by simp [member]⟩
        · cases member
      · intro ⟨w, ⟨d, isOne, inClass⟩, split⟩
        rw [isOne, List.singleton_append, List.cons.injEq] at split
        rw [if_pos (split.1 ▸ inClass), List.mem_singleton]
        exact split.2
  | many p => exact mem_manyRests
  | seq a b aHypothesis bHypothesis =>
    simp only [rests, List.mem_flatMap, aHypothesis, bHypothesis, Matches]
    constructor
    · intro ⟨middle, ⟨u, first, uSplit⟩, v, second, vSplit⟩
      exact ⟨u ++ v, ⟨u, v, rfl, first, second⟩, by rw [List.append_assoc, vSplit, uSplit]⟩
    · intro ⟨w, ⟨u, v, isBoth, first, second⟩, split⟩
      rw [isBoth, List.append_assoc] at split
      exact ⟨v ++ t, ⟨u, first, split⟩, v, second, rfl⟩
  | alt a b aHypothesis bHypothesis =>
    simp only [rests, List.mem_append, aHypothesis, bHypothesis, Matches]
    constructor
    · intro either
      cases either with
      | inl left =>
        obtain ⟨w, isMatch, split⟩ := left
        exact ⟨w, .inl isMatch, split⟩
      | inr right =>
        obtain ⟨w, isMatch, split⟩ := right
        exact ⟨w, .inr isMatch, split⟩
    · intro ⟨w, either, split⟩
      exact either.imp (fun isMatch => ⟨w, isMatch, split⟩) (fun isMatch => ⟨w, isMatch, split⟩)

theorem matches_iff {r : Regex} {w : List Char} : r.Matches w ↔ [] ∈ r.rests w := by
  rw [mem_rests]
  simp

instance (r : Regex) (w : List Char) : Decidable (r.Matches w) :=
  decidable_of_iff _ matches_iff.symm

/-! ## SQL patterns -/

/-- `%` is any text, `_` any character. -/
def likeItem (c : Char) : Regex :=
  if c = '%' then many (fun _ => true)
  else if c = '_' then one (fun _ => true)
  else one (· = c)

/-- The pattern behind `LIKE`. -/
def like (pattern : List Char) : Regex := concat (pattern.map likeItem)

theorem matches_concat_append {as bs : List Regex} {u v : List Char}
    (first : (concat as).Matches u) (second : (concat bs).Matches v) :
    (concat (as ++ bs)).Matches (u ++ v) := by
  induction as generalizing u with
  | nil =>
    have empty : u = [] := first
    rw [empty]
    exact second
  | cons a as inductionHypothesis =>
    obtain ⟨x, y, split, head, tail⟩ := first
    exact ⟨x, y ++ v, by rw [split, List.append_assoc], head, inductionHypothesis tail⟩

theorem matches_like_append {p q u v : List Char} (first : (like p).Matches u)
    (second : (like q).Matches v) : (like (p ++ q)).Matches (u ++ v) := by
  unfold like
  rw [List.map_append]
  exact matches_concat_append first second

theorem matches_like_any (w : List Char) : (like ['%']).Matches w :=
  ⟨w, [], by simp, by simp [likeItem, Matches], rfl⟩

/-- A text is like itself. -/
theorem matches_like_self (p : List Char) : (like p).Matches p := by
  induction p with
  | nil => rfl
  | cons c p inductionHypothesis =>
    refine ⟨[c], p, rfl, ?_, inductionHypothesis⟩
    unfold likeItem
    split
    · simp [Matches]
    · split <;> simp [Matches]

/-- With any text between. -/
theorem matches_like_gap (p q between : List Char) :
    (like (p ++ '%' :: q)).Matches (p ++ (between ++ q)) := by
  have ends : (like ('%' :: q)).Matches (between ++ q) :=
    matches_like_append (p := ['%']) (matches_like_any between) (matches_like_self q)
  exact matches_like_append (matches_like_self p) ends

/-! ## The first of several patterns -/

/-- The pattern that matches at the front of a text and the length of its match: the first
pattern that does, by its preferred match. -/
def firstMatch (patterns : List Regex) (s : List Char) : Option (Nat × Nat) :=
  patterns.zipIdx.findSome? (fun x =>
    (x.1.rests s).head?.map (fun rest => (x.2, s.length - rest.length)))

theorem firstMatch_some {patterns : List Regex} {s : List Char} {i n : Nat}
    (found : firstMatch patterns s = some (i, n)) :
    ∃ r, patterns[i]? = some r ∧ r.Matches (s.take n) ∧ n ≤ s.length := by
  obtain ⟨⟨r, index⟩, listed, matched⟩ := List.exists_of_findSome?_eq_some found
  obtain ⟨rest, first, parts⟩ := Option.map_eq_some_iff.mp matched
  rw [Prod.mk.injEq] at parts
  obtain ⟨rfl, rfl⟩ := parts
  obtain ⟨w, isMatch, split⟩ := mem_rests.mp (List.mem_of_head? first)
  have length : s.length - rest.length = w.length := by
    rw [← split, List.length_append]
    omega
  refine ⟨r, List.mk_mem_zipIdx_iff_getElem?.mp listed, ?_, Nat.sub_le _ _⟩
  rw [length, ← split, List.take_left]
  exact isMatch

theorem firstMatch_pos {patterns : List Regex} (consume : ∀ r ∈ patterns, r.consumes = true)
    {s : List Char} {i n : Nat} (found : firstMatch patterns s = some (i, n)) : 0 < n := by
  obtain ⟨r, place, isMatch, -⟩ := firstMatch_some found
  have some := ne_nil_of_consumes (consume r (List.mem_of_getElem? place)) isMatch
  apply Nat.pos_of_ne_zero
  intro zero
  simp [zero] at some

theorem firstMatch_none {patterns : List Regex} {s : List Char}
    (nothing : firstMatch patterns s = none) {r : Regex} (listed : r ∈ patterns)
    {w t : List Char} (isMatch : r.Matches w) : w ++ t ≠ s := by
  intro split
  have member : t ∈ r.rests s := mem_rests.mpr ⟨w, isMatch, split⟩
  obtain ⟨i, place⟩ := List.mem_iff_getElem?.mp listed
  unfold firstMatch at nothing
  rw [List.findSome?_eq_none_iff] at nothing
  have none := nothing (r, i) (List.mk_mem_zipIdx_iff_getElem?.mpr place)
  rw [Option.map_eq_none_iff, List.head?_eq_none_iff] at none
  rw [none] at member
  cases member

end Regex

/-! ## All matches of a text -/

/-- A match: of which pattern, and where. -/
structure Found where
  pattern : Nat
  start : Nat
  stop : Nat
  deriving DecidableEq

/-- The first match at or behind a position, and on from its end.  `pos` characters have been
passed, and `skip` more are part of the last match. -/
def scanFrom (patterns : List Regex) : Nat → Nat → List Char → List Found
  | _, _, [] => []
  | skip + 1, pos, _ :: s => scanFrom patterns skip (pos + 1) s
  | 0, pos, c :: s =>
    match Regex.firstMatch patterns (c :: s) with
    | some (pattern, length) =>
      { pattern := pattern, start := pos, stop := pos + length } ::
        scanFrom patterns (length - 1) (pos + 1) s
    | none => scanFrom patterns 0 (pos + 1) s

def scan (patterns : List Regex) (text : List Char) : List Found := scanFrom patterns 0 0 text

def slice (text : List Char) (start stop : Nat) : List Char := (text.drop start).take (stop - start)

section Scan

variable {patterns : List Regex}

/-- Every match is where it says it is. -/
theorem scanFrom_spec (consume : ∀ r ∈ patterns, r.consumes = true) {skip pos : Nat}
    {s : List Char} {m : Found} (found : m ∈ scanFrom patterns skip pos s) :
    pos + skip ≤ m.start ∧ m.start < m.stop ∧ m.stop ≤ pos + s.length ∧
      ∃ r, patterns[m.pattern]? = some r ∧
        r.Matches (slice s (m.start - pos) (m.stop - pos)) := by
  induction s generalizing skip pos with
  | nil => cases found
  | cons c s inductionHypothesis =>
    -- a match that was found in the rest of the text
    have later {skip' : Nat} (found : m ∈ scanFrom patterns skip' (pos + 1) s)
        (behind : pos + skip ≤ pos + 1 + skip') : pos + skip ≤ m.start ∧ m.start < m.stop ∧
          m.stop ≤ pos + (c :: s).length ∧ ∃ r, patterns[m.pattern]? = some r ∧
            r.Matches (slice (c :: s) (m.start - pos) (m.stop - pos)) := by
      obtain ⟨start, nonempty, stop, r, place, isMatch⟩ := inductionHypothesis found
      have shift : m.start - pos = m.start - (pos + 1) + 1 := by omega
      have width : m.stop - pos - (m.start - pos) =
          m.stop - (pos + 1) - (m.start - (pos + 1)) := by omega
      refine ⟨by omega, nonempty, by simp only [List.length_cons]; omega, r, place, ?_⟩
      rw [slice, width, shift, List.drop_succ_cons]
      exact isMatch
    cases skip with
    | succ skip => exact later found (by omega)
    | zero =>
      unfold scanFrom at found
      cases first : Regex.firstMatch patterns (c :: s) with
      | none =>
        rw [first] at found
        exact later found (by omega)
      | some x =>
        obtain ⟨i, n⟩ := x
        rw [first] at found
        cases found with
        | tail _ found => exact later found (by omega)
        | head =>
          obtain ⟨r, place, isMatch, within⟩ := Regex.firstMatch_some first
          have positive := Regex.firstMatch_pos consume first
          refine ⟨by simp, by simp; omega, by simpa using within, r, place, ?_⟩
          simpa [slice] using isMatch

/-- The matches stand in order, one behind the other. -/
theorem scanFrom_sorted (consume : ∀ r ∈ patterns, r.consumes = true) (skip pos : Nat)
    (s : List Char) : (scanFrom patterns skip pos s).Pairwise (fun a b => a.stop ≤ b.start) := by
  induction s generalizing skip pos with
  | nil => cases skip <;> exact .nil
  | cons c s inductionHypothesis =>
    cases skip with
    | succ skip => exact inductionHypothesis skip (pos + 1)
    | zero =>
      unfold scanFrom
      cases first : Regex.firstMatch patterns (c :: s) with
      | none => exact inductionHypothesis 0 (pos + 1)
      | some x =>
        obtain ⟨i, n⟩ := x
        apply List.Pairwise.cons _ (inductionHypothesis (n - 1) (pos + 1))
        intro m found
        have behind := (scanFrom_spec consume found).1
        show pos + n ≤ m.start
        omega

/-- Where no match stands, none begins. -/
theorem scanFrom_complete (consume : ∀ r ∈ patterns, r.consumes = true) {skip pos i : Nat}
    {s : List Char} (behind : pos + skip ≤ i) (within : i < pos + s.length) :
    (∃ m ∈ scanFrom patterns skip pos s, m.start ≤ i ∧ i < m.stop) ∨
      Regex.firstMatch patterns (s.drop (i - pos)) = none := by
  induction s generalizing skip pos with
  | nil =>
    simp only [List.length_nil] at within
    omega
  | cons c s inductionHypothesis =>
    simp only [List.length_cons] at within
    -- the place is behind this character
    have later {skip' : Nat} (behind : pos + 1 + skip' ≤ i) :
        (∃ m ∈ scanFrom patterns skip' (pos + 1) s, m.start ≤ i ∧ i < m.stop) ∨
          Regex.firstMatch patterns ((c :: s).drop (i - pos)) = none := by
      have shift : i - pos = i - (pos + 1) + 1 := by omega
      rw [shift, List.drop_succ_cons]
      exact inductionHypothesis behind (by omega)
    cases skip with
    | succ skip => exact later (by omega)
    | zero =>
      unfold scanFrom
      cases first : Regex.firstMatch patterns (c :: s) with
      | none =>
        by_cases here : i = pos
        · right
          rw [here, Nat.sub_self, List.drop_zero]
          exact first
        · exact later (by omega)
      | some x =>
        obtain ⟨k, n⟩ := x
        have positive := Regex.firstMatch_pos consume first
        -- the match stands around the place, or the scan goes on behind it
        by_cases inside : i < pos + n
        · exact .inl ⟨_, List.mem_cons_self, by simpa using behind, inside⟩
        · cases later (by omega : pos + 1 + (n - 1) ≤ i) with
          | inr nothing => exact .inr nothing
          | inl found =>
            obtain ⟨m, member, around⟩ := found
            exact .inl ⟨m, List.mem_cons_of_mem _ member, around⟩

theorem scan_spec (consume : ∀ r ∈ patterns, r.consumes = true) {text : List Char} {m : Found}
    (found : m ∈ scan patterns text) : m.start < m.stop ∧ m.stop ≤ text.length ∧
      ∃ r, patterns[m.pattern]? = some r ∧ r.Matches (slice text m.start m.stop) := by
  obtain ⟨-, nonempty, stop, matched⟩ := scanFrom_spec consume found
  exact ⟨nonempty, by simpa using stop, by simpa using matched⟩

theorem scan_sorted (consume : ∀ r ∈ patterns, r.consumes = true) (text : List Char) :
    (scan patterns text).Pairwise (fun a b => a.stop ≤ b.start) :=
  scanFrom_sorted consume 0 0 text

/-- A position is inside a match, or no pattern matches from there. -/
theorem scan_complete (consume : ∀ r ∈ patterns, r.consumes = true) {text : List Char} {i : Nat}
    (within : i < text.length) : (∃ m ∈ scan patterns text, m.start ≤ i ∧ i < m.stop) ∨
      ∀ r ∈ patterns, ∀ j, ¬ r.Matches (slice text i j) := by
  have behind : 0 + 0 ≤ i := Nat.zero_le i
  cases scanFrom_complete consume behind (by simpa using within) with
  | inl inside => exact .inl inside
  | inr nothing =>
    right
    intro r listed j isMatch
    exact Regex.firstMatch_none nothing listed isMatch (List.take_append_drop (j - i) _)

end Scan

end Evald.Lib
