import Evald.Lib.Regex
import Mathlib.Data.List.TakeWhile

/-! # What a group captures

A search finds the preferred match of a pattern.  `lead` is what a pattern takes at the front
of a text, and `group` what a part of a pattern takes when the pattern matches the whole text.
A `Greedy` pattern takes all of a text it matches.
-/

namespace Evald.Lib.Regex

/-- A match stands somewhere in the text. -/
def occursIn (r : Regex) (text : List Char) : Bool :=
  text.tails.any (fun tail => !(r.rests tail).isEmpty)

/-- What was taken of a text, by what is left of it. -/
def taken (text rest : List Char) : List Char := text.take (text.length - rest.length)

/-- The preferred match at the front of a text. -/
def lead (r : Regex) (text : List Char) : Option (List Char) := (r.rests text).head?.map (taken text)

/-- What `g` takes in the preferred match of `a`, `g` and `b` with the whole text. -/
def group (a g b : Regex) (text : List Char) : Option (List Char) :=
  (a.rests text).findSome? (fun middle =>
    (g.rests middle).findSome? (fun rest =>
      if (b.rests rest).contains [] then some (taken middle rest) else none))

theorem taken_append (word rest : List Char) : taken (word ++ rest) rest = word := by
  simp [taken]

/-- A group in front of a pattern that takes whatever is left. -/
theorem group_eq {a g b : Regex} (anything : ∀ w, b.Matches w) (text : List Char) :
    group a g b text = (a.rests text).findSome? g.lead := by
  unfold group
  congr 1
  funext middle
  have all (rest : List Char) : (b.rests rest).contains [] = true := by
    rw [List.contains_iff_mem]
    exact matches_iff.mp (anything rest)
  simp only [all, if_true, lead]
  cases g.rests middle with
  | nil => rfl
  | cons rest others => rfl

theorem manyRests_all (text : List Char) : manyRests (fun _ => true) text = text.tails.reverse := by
  induction text with
  | nil => rfl
  | cons c text inductionHypothesis => simp [manyRests, inductionHypothesis]

theorem rests_concat_cons (r : Regex) (parts : List Regex) (text : List Char) :
    (concat (r :: parts)).rests text = (r.rests text).flatMap (concat parts).rests := rfl

theorem rests_opt (r : Regex) (text : List Char) : (opt r).rests text = r.rests text ++ [text] := rfl

/-- A word is taken where it stands. -/
theorem rests_literal (word : String) (text : List Char) : (literal word).rests text =
    if word.toList <+: text then [text.drop word.toList.length] else [] := by
  unfold literal
  induction word.toList generalizing text with
  | nil => simp [rests]
  | cons w word inductionHypothesis =>
    cases text with
    | nil => simp [rests]
    | cons c text =>
      rw [List.foldr_cons, rests, rests]
      by_cases same : c = w
      · simp [same, inductionHypothesis]
      · simp [same, Ne.symm same]

/-! ## Where a pattern stops -/

/-- No match has the character in it. -/
def rejects (d : Char) : Regex → Bool
  | empty => true
  | one p => !p d
  | many p => !p d
  | seq a b => a.rejects d && b.rejects d
  | alt a b => a.rejects d && b.rejects d

theorem manyRests_append {p : Char → Bool} {d : Char} (rejected : p d = false)
    (text behind : List Char) :
    manyRests p (text ++ d :: behind) = (manyRests p text).map (· ++ d :: behind) := by
  induction text with
  | nil => simp [manyRests, rejected]
  | cons c text inductionHypothesis =>
    rw [List.cons_append, manyRests, manyRests, inductionHypothesis]
    split <;> simp

/-- A match ends before a character that no match has. -/
theorem rests_append {r : Regex} {d : Char} (rejected : r.rejects d = true)
    (text behind : List Char) :
    r.rests (text ++ d :: behind) = (r.rests text).map (· ++ d :: behind) := by
  induction r generalizing text with
  | empty => rfl
  | one p =>
    have never : p d = false := by simpa [rejects] using rejected
    cases text with
    | nil => simp [rests, never]
    | cons c text =>
      rw [List.cons_append, rests, rests]
      split <;> simp
  | many p => exact manyRests_append (by simpa [rejects] using rejected) text behind
  | seq a b aHypothesis bHypothesis =>
    simp only [rejects, Bool.and_eq_true] at rejected
    rw [rests, rests, aHypothesis rejected.1, List.flatMap_map, List.map_flatMap]
    congr 1
    funext rest
    exact bHypothesis rejected.2 rest
  | alt a b aHypothesis bHypothesis =>
    simp only [rejects, Bool.and_eq_true] at rejected
    rw [rests, rests, aHypothesis rejected.1, bHypothesis rejected.2, List.map_append]

theorem lead_append {r : Regex} {d : Char} (rejected : r.rejects d = true)
    (text behind : List Char) : r.lead (text ++ d :: behind) = r.lead text := by
  unfold lead
  rw [rests_append rejected, List.head?_map]
  cases left : r.rests text with
  | nil => rfl
  | cons rest others =>
    have suffix : rest ∈ r.rests text := by
      rw [left]
      exact List.mem_cons_self
    obtain ⟨word, -, rfl⟩ := mem_rests.mp suffix
    simp only [List.head?_cons, Option.map_some, taken_append]
    rw [List.append_assoc, taken_append]

/-! ## Patterns that take all they can -/

/-- A match can begin with the character. -/
def starts (c : Char) : Regex → Bool
  | empty => false
  | one p => p c
  | many p => p c
  | seq a b => a.starts c || (!a.consumes && b.starts c)
  | alt a b => a.starts c || b.starts c

theorem matches_nil {r : Regex} : r.Matches [] → r.consumes = false := by
  intro isMatch
  by_contra consumes
  exact ne_nil_of_consumes (by simpa using consumes) isMatch rfl

theorem starts_of_matches {r : Regex} {c : Char} {w : List Char} (isMatch : r.Matches (c :: w)) :
    r.starts c = true := by
  induction r generalizing w with
  | empty => cases isMatch
  | one p =>
    obtain ⟨d, isOne, inClass⟩ := isMatch
    rw [List.cons.injEq] at isOne
    rw [starts, isOne.1, inClass]
  | many p => exact isMatch c List.mem_cons_self
  | seq a b aHypothesis bHypothesis =>
    obtain ⟨u, v, split, first, second⟩ := isMatch
    cases u with
    | nil =>
      rw [List.nil_append] at split
      rw [starts, bHypothesis (split ▸ second), matches_nil first]
      simp
    | cons d u =>
      rw [List.cons_append, List.cons.injEq] at split
      rw [starts, aHypothesis (split.1 ▸ first), Bool.true_or]
  | alt a b aHypothesis bHypothesis =>
    rw [starts, Bool.or_eq_true]
    exact isMatch.imp aHypothesis bHypothesis

/-- No match begins there. -/
theorem lead_eq_none {r : Regex} {c : Char} (consumes : r.consumes = true)
    (never : r.starts c = false) (text : List Char) : r.lead (c :: text) = none := by
  have nothing : r.rests (c :: text) = [] := by
    rw [List.eq_nil_iff_forall_not_mem]
    intro rest listed
    obtain ⟨word, isMatch, split⟩ := mem_rests.mp listed
    cases word with
    | nil => exact ne_nil_of_consumes consumes isMatch rfl
    | cons d word =>
      rw [List.cons_append, List.cons.injEq] at split
      have starts := starts_of_matches isMatch
      rw [split.1, never] at starts
      cases starts
  rw [lead, nothing]
  rfl

/-- The preferred match is the whole text wherever it is a match. -/
def Greedy (r : Regex) : Prop := ∀ w, r.Matches w → (r.rests w).head? = some []

theorem Greedy.lead {r : Regex} (greedy : r.Greedy) {w : List Char} (isMatch : r.Matches w) :
    r.lead w = some w := by
  rw [Regex.lead, greedy w isMatch]
  simp [taken]

/-- The longest run is preferred, and the others stop inside it. -/
theorem manyRests_eq (p : Char → Bool) (text : List Char) : ∃ others,
    manyRests p text = text.dropWhile p :: others ∧
      ∀ rest ∈ others, ∃ c tail, rest = c :: tail ∧ p c = true := by
  induction text with
  | nil => exact ⟨[], rfl, by simp⟩
  | cons c text inductionHypothesis =>
    by_cases inClass : p c = true
    · obtain ⟨others, split, stopped⟩ := inductionHypothesis
      refine ⟨others ++ [c :: text], ?_, ?_⟩
      · rw [manyRests, if_pos inClass, split, List.dropWhile_cons_of_pos inClass, List.cons_append]
      · intro rest listed
        rw [List.mem_append, List.mem_singleton] at listed
        cases listed with
        | inl earlier => exact stopped rest earlier
        | inr whole => exact ⟨c, text, whole, inClass⟩
    · exact ⟨[], by rw [manyRests, if_neg inClass, List.dropWhile_cons_of_neg inClass], by simp⟩

theorem greedy_many (p : Char → Bool) : (many p).Greedy := by
  intro w isMatch
  obtain ⟨others, split, -⟩ := manyRests_eq p w
  have all : w.dropWhile p = [] := List.dropWhile_eq_nil_iff.mpr isMatch
  rw [rests, split, all, List.head?_cons]

theorem Greedy.opt {r : Regex} (greedy : r.Greedy) (consumes : r.consumes = true) :
    (opt r).Greedy := by
  intro w isMatch
  rw [rests_opt]
  cases isMatch with
  | inl some =>
    rw [List.head?_append, greedy w some]
    rfl
  | inr none =>
    have nothing : r.rests w = [] := by
      rw [List.eq_nil_iff_forall_not_mem]
      intro rest listed
      obtain ⟨word, isMatch, split⟩ := mem_rests.mp listed
      rw [show w = [] from none, List.append_eq_nil_iff] at split
      exact ne_nil_of_consumes consumes isMatch split.1
    rw [nothing]
    exact congrArg some none

/-- But for the preferred match, the first part stops at a character the second does not start
with. -/
def StopsFor (a b : Regex) : Prop :=
  ∀ w rest others, a.rests w = rest :: others →
    ∀ other ∈ others, ∃ c tail, other = c :: tail ∧ b.starts c = false

theorem Greedy.seq {a b : Regex} (stops : a.StopsFor b) (greedy : b.Greedy) :
    (seq a b).Greedy := by
  intro w isMatch
  rw [matches_iff, rests, List.mem_flatMap] at isMatch
  obtain ⟨middle, first, second⟩ := isMatch
  rw [rests]
  cases left : a.rests w with
  | nil =>
    rw [left] at first
    cases first
  | cons rest others =>
    rw [left] at first
    cases List.mem_cons.mp first with
    | inl preferred =>
      rw [preferred] at second
      rw [List.flatMap_cons, List.head?_append, greedy rest (matches_iff.mpr second)]
      rfl
    | inr other =>
      obtain ⟨c, tail, isOther, differ⟩ := stops w rest others left middle other
      rw [isOther] at second
      rw [starts_of_matches (matches_iff.mpr second)] at differ
      cases differ

theorem stopsFor_one (p : Char → Bool) (b : Regex) : StopsFor (one p) b := by
  intro w rest others left other listed
  cases w with
  | nil => cases left
  | cons c w =>
    rw [rests] at left
    split at left
    · rw [List.cons.injEq] at left
      rw [← left.2] at listed
      cases listed
    · cases left

theorem stopsFor_many {p : Char → Bool} {b : Regex} (apart : ∀ c, p c = true → b.starts c = false) :
    StopsFor (many p) b := by
  intro w rest others left other listed
  obtain ⟨others', split, stopped⟩ := manyRests_eq p w
  rw [rests, split, List.cons.injEq] at left
  rw [← left.2] at listed
  obtain ⟨c, tail, isOther, inClass⟩ := stopped other listed
  exact ⟨c, tail, isOther, apart c inClass⟩

theorem StopsFor.one_seq {b c : Regex} (stops : b.StopsFor c) (p : Char → Bool) :
    StopsFor (seq (one p) b) c := by
  intro w rest others left
  cases w with
  | nil => cases left
  | cons d w =>
    rw [rests, rests] at left
    split at left
    · rw [List.flatMap_singleton] at left
      exact stops w rest others left
    · cases left

/-- Without a match of `r`, nothing is preferred to going on; with one, going on is at its first
character. -/
theorem StopsFor.opt {r b : Regex} (stops : r.StopsFor b) (consumes : r.consumes = true)
    (apart : ∀ c, r.starts c = true → b.starts c = false) : StopsFor (opt r) b := by
  intro w rest others left other listed
  rw [rests_opt] at left
  cases inner : r.rests w with
  | nil =>
    rw [inner, List.nil_append, List.cons.injEq] at left
    rw [← left.2] at listed
    cases listed
  | cons rest' others' =>
    rw [inner, List.cons_append, List.cons.injEq] at left
    rw [← left.2, List.mem_append, List.mem_singleton] at listed
    cases listed with
    | inl earlier => exact stops w rest' others' inner other earlier
    | inr whole =>
      have first : rest' ∈ r.rests w := by
        rw [inner]
        exact List.mem_cons_self
      obtain ⟨word, isMatch, split⟩ := mem_rests.mp first
      cases word with
      | nil => exact absurd rfl (ne_nil_of_consumes consumes isMatch)
      | cons c word => exact ⟨c, word ++ rest', whole.trans split.symm, apart c (starts_of_matches isMatch)⟩

theorem rests_atLeast_one (p : Char → Bool) (text : List Char) : (atLeast p 1).rests text =
    match text with
    | [] => []
    | c :: text => if p c then manyRests p text else [] := by
  cases text with
  | nil => rfl
  | cons c text =>
    by_cases inClass : p c = true
    · simp [atLeast, times, rests, inClass]
    · simp [atLeast, times, rests, inClass]

theorem matches_atLeast_one {p : Char → Bool} {w : List Char} (isRun : w ≠ [])
    (inClass : ∀ c ∈ w, p c = true) : (atLeast p 1).Matches w := by
  cases w with
  | nil => exact absurd rfl isRun
  | cons c w =>
    obtain ⟨here, later⟩ := List.forall_mem_cons.mp inClass
    exact ⟨[c], w, rfl, ⟨[c], [], rfl, ⟨c, rfl, here⟩, rfl⟩, later⟩

theorem stopsFor_atLeast_one {p : Char → Bool} {b : Regex}
    (apart : ∀ c, p c = true → b.starts c = false) : StopsFor (atLeast p 1) b := by
  intro w rest others left
  rw [rests_atLeast_one] at left
  cases w with
  | nil => cases left
  | cons c w =>
    simp only at left
    split at left
    · exact stopsFor_many apart w rest others left
    · cases left

theorem greedy_atLeast_one (p : Char → Bool) : (atLeast p 1).Greedy := by
  intro w isMatch
  rw [matches_iff, rests_atLeast_one] at isMatch
  rw [rests_atLeast_one]
  cases w with
  | nil => cases isMatch
  | cons c w =>
    simp only at isMatch ⊢
    split at isMatch
    · next inClass =>
      rw [if_pos inClass]
      exact greedy_many p w (matches_iff.mpr isMatch)
    · cases isMatch

theorem Greedy.seq_empty {r : Regex} (greedy : r.Greedy) : (Regex.seq r empty).Greedy := by
  intro w isMatch
  have same (text : List Char) : (Regex.seq r empty).rests text = r.rests text := by
    simp [rests, List.flatMap_singleton']
  rw [matches_iff, same] at isMatch
  rw [same]
  exact greedy w (matches_iff.mpr isMatch)

end Evald.Lib.Regex
