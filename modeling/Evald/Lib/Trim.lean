import Evald.Lib.Text

/-! # Trimmed texts

A text is trimmed when no white space stands at either end; trimming gives such a text and
leaves one alone.
-/

namespace Evald.Lib

/-- No white space at either end. -/
structure Trimmed (chars : List Char) : Prop where
  start : ∀ c, chars.head? = some c → isWhitespace c = false
  stop : ∀ c, chars.getLast? = some c → isWhitespace c = false

theorem trimmed_of_all {chars : List Char} (plain : ∀ c ∈ chars, isWhitespace c = false) :
    Trimmed chars where
  start c first := plain c (List.mem_of_head? first)
  stop c last := plain c (List.mem_of_getLast? last)

theorem head?_dropWhile_whitespace {chars : List Char} {c : Char}
    (first : (chars.dropWhile isWhitespace).head? = some c) : isWhitespace c = false := by
  have stopped := List.head?_dropWhile_not isWhitespace chars
  rw [first] at stopped
  simpa using stopped

theorem dropWhile_of_trimmed {chars : List Char}
    (start : ∀ c, chars.head? = some c → isWhitespace c = false) :
    chars.dropWhile isWhitespace = chars := by
  cases chars with
  | nil => rfl
  | cons c chars => exact List.dropWhile_cons_of_neg (by simp [start c rfl])

theorem trimmed_trim (s : String) : Trimmed (trim s).toList := by
  unfold trim
  rw [String.toList_ofList]
  constructor
  · intro c first
    rw [List.head?_reverse] at first
    -- the last of the reversed rest is the last of the whole, the first that is kept
    have suffix := List.dropWhile_suffix (l := (s.toList.dropWhile isWhitespace).reverse)
      isWhitespace
    obtain ⟨dropped, split⟩ := suffix
    have last : (s.toList.dropWhile isWhitespace).reverse.getLast? = some c := by
      rw [← split, List.getLast?_append, first]
      rfl
    rw [List.getLast?_reverse] at last
    exact head?_dropWhile_whitespace last
  · intro c last
    rw [List.getLast?_reverse] at last
    exact head?_dropWhile_whitespace last

theorem trim_of_trimmed {s : String} (trimmed : Trimmed s.toList) : trim s = s := by
  unfold trim
  rw [dropWhile_of_trimmed trimmed.start, dropWhile_of_trimmed]
  · rw [List.reverse_reverse, String.ofList_toList]
  · intro c first
    rw [List.head?_reverse] at first
    exact trimmed.stop c first

@[simp] theorem trim_trim (s : String) : trim (trim s) = trim s := trim_of_trimmed (trimmed_trim s)

theorem trim_sublist (s : String) : (trim s).toList.Sublist s.toList := by
  unfold trim
  rw [String.toList_ofList]
  have back := (List.dropWhile_suffix (l := (s.toList.dropWhile isWhitespace).reverse)
    isWhitespace).sublist
  rw [← List.reverse_sublist, List.reverse_reverse] at back
  exact back.trans (List.dropWhile_suffix isWhitespace).sublist

/-- A character that is no white space stays. -/
theorem mem_trim {s : String} {c : Char} (member : c ∈ s.toList) (plain : isWhitespace c = false) :
    c ∈ (trim s).toList := by
  have keeps {chars : List Char} (inside : c ∈ chars) : c ∈ chars.dropWhile isWhitespace := by
    rw [← List.takeWhile_append_dropWhile (p := isWhitespace) (l := chars), List.mem_append] at inside
    refine inside.resolve_left (fun dropped => ?_)
    rw [List.mem_takeWhile_imp dropped] at plain
    cases plain
  unfold trim
  rw [String.toList_ofList, List.mem_reverse]
  exact keeps (List.mem_reverse.mpr (keeps member))

/-! ## Around the first separator -/

theorem splitOnce_eq_some {s : String} {separator : Char} {head rest : String} :
    splitOnce s separator = some (head, rest) ↔
      s.toList = head.toList ++ separator :: rest.toList ∧ separator ∉ head.toList := by
  unfold splitOnce
  constructor
  · intro parts
    split at parts
    · next among =>
      cases parts
      rw [String.toList_ofList, String.toList_ofList]
      have stops : s.toList.dropWhile (· ≠ separator) =
          separator :: (s.toList.dropWhile (· ≠ separator)).tail := by
        cases rest : s.toList.dropWhile (· ≠ separator) with
        | nil =>
          rw [List.dropWhile_eq_nil_iff] at rest
          exact absurd (rest separator among) (by simp)
        | cons c behind =>
          have stopped := List.head?_dropWhile_not (· ≠ separator) s.toList
          rw [rest] at stopped
          have same : c = separator := by simpa using stopped
          rw [same, List.tail_cons]
      constructor
      · rw [← stops, List.takeWhile_append_dropWhile]
      · intro inside
        exact absurd (List.mem_takeWhile_imp inside) (by simp)
    · cases parts
  · intro ⟨split, unmet⟩
    have among : separator ∈ s.toList := by simp [split]
    have passes : ∀ c ∈ head.toList, decide (c ≠ separator) = true := by
      intro c member
      rw [decide_eq_true_eq]
      rintro rfl
      exact unmet member
    rw [if_pos among, split, List.takeWhile_append_of_pos passes, List.dropWhile_append_of_pos passes]
    simp

end Evald.Lib
