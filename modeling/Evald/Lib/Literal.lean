import Mathlib.Data.List.Basic

/-! # Quoted literals

A literal stands between two quotes, with each quote inside it doubled.  `cut` divides a text into
what is plain and what is literal.  A text written from such pieces is cut into them again,
whatever the literals hold (`cut_written`).
-/

namespace Evald.Lib.Literal

variable {α : Type} [DecidableEq α]

inductive Piece (α : Type) where
  | plain (text : List α)
  | literal (text : List α)
  deriving DecidableEq

/-- Where in the text one is; `closing` is behind a quote that ends the literal, unless
another one follows. -/
inductive CutMode where
  | outside
  | inside
  | closing

/-- The pieces of a text; none where a literal is left open. -/
def cut (quote : α) : CutMode → List α → List α → Option (List (Piece α))
  | .outside, held, [] => some [.plain held.reverse]
  | .outside, held, c :: rest =>
    if c = quote then (cut quote .inside [] rest).map (.plain held.reverse :: ·)
    else cut quote .outside (c :: held) rest
  | .inside, _, [] => none
  | .inside, held, c :: rest =>
    if c = quote then cut quote .closing held rest else cut quote .inside (c :: held) rest
  | .closing, held, [] => some [.literal held.reverse, .plain []]
  | .closing, held, c :: rest =>
    if c = quote then cut quote .inside (quote :: held) rest
    else (cut quote .outside [c] rest).map (.literal held.reverse :: ·)

def doubled (quote : α) (text : List α) : List α :=
  text.flatMap (fun c => if c = quote then [quote, quote] else [c])

def quoted (quote : α) (text : List α) : List α := quote :: (doubled quote text ++ [quote])

variable {quote : α}

theorem cut_plain {text : List α} (plain : quote ∉ text) (held rest : List α) :
    cut quote .outside held (text ++ rest) = cut quote .outside (text.reverse ++ held) rest := by
  induction text generalizing held with
  | nil => rfl
  | cons c text inductionHypothesis =>
    obtain ⟨here, later⟩ := not_or.mp (List.mem_cons.not.mp plain)
    rw [List.cons_append, cut, if_neg (Ne.symm here), inductionHypothesis later]
    simp

theorem cut_doubled (text held rest : List α) :
    cut quote .inside held (doubled quote text ++ rest) =
      cut quote .inside (text.reverse ++ held) rest := by
  induction text generalizing held with
  | nil => rfl
  | cons c text inductionHypothesis =>
    have next := inductionHypothesis (c :: held)
    unfold doubled at next ⊢
    by_cases isQuote : c = quote
    · rw [List.flatMap_cons, if_pos isQuote, List.append_assoc, List.cons_append, cut,
        if_pos rfl, List.cons_append, cut, if_pos rfl, List.nil_append, ← isQuote]
      rw [← isQuote] at next
      simpa using next
    · rw [List.flatMap_cons, if_neg isQuote, List.append_assoc, List.cons_append, cut,
        if_neg isQuote, List.nil_append]
      simpa using next

/-- A literal is read back, and the cutting goes on behind it. -/
theorem cut_quoted (text held : List α) {rest : List α} (apart : rest.head? ≠ some quote) :
    cut quote .outside held (quoted quote text ++ rest) =
      (cut quote .outside [] rest).map
        (fun pieces => .plain held.reverse :: .literal text :: pieces) := by
  have opened : cut quote .outside held (quoted quote text ++ rest) =
      (cut quote .closing text.reverse rest).map (.plain held.reverse :: ·) := by
    rw [quoted, List.cons_append, cut, if_pos rfl, List.append_assoc, cut_doubled,
      List.append_nil, List.singleton_append, cut, if_pos rfl]
  rw [opened]
  cases rest with
  | nil => simp [cut]
  | cons c rest =>
    have other : c ≠ quote := by simpa using apart
    rw [cut, if_neg other, cut, if_neg other, Option.map_map, List.reverse_reverse]
    rfl

/-- A text of plain pieces with a literal before each but the first. -/
def written (quote : α) (first : List α) (rest : List (List α × List α)) : List α :=
  first ++ rest.flatMap (fun r => quoted quote r.1 ++ r.2)

theorem cut_written {first : List α} {rest : List (List α × List α)} (plain : quote ∉ first)
    (plains : ∀ r ∈ rest, quote ∉ r.2 ∧ r.2 ≠ []) :
    cut quote .outside [] (written quote first rest) =
      some (.plain first :: rest.flatMap (fun r => [.literal r.1, .plain r.2])) := by
  induction rest generalizing first with
  | nil => rw [written, List.flatMap_nil, cut_plain plain, cut]; simp
  | cons r rest inductionHypothesis =>
    rw [List.forall_mem_cons] at plains
    obtain ⟨⟨noQuote, nonempty⟩, later⟩ := plains
    have next := inductionHypothesis noQuote later
    have apart : (written quote r.2 rest).head? ≠ some quote := by
      obtain ⟨c, text, isCons⟩ := List.exists_cons_of_ne_nil nonempty
      rw [isCons] at noQuote
      rw [written, isCons, List.cons_append, List.head?_cons, ne_eq, Option.some.injEq]
      exact fun same => noQuote (by simp [same])
    have unfolded : written quote first (r :: rest) =
        first ++ (quoted quote r.1 ++ written quote r.2 rest) := by
      simp [written]
    rw [unfolded, cut_plain plain, List.append_nil, cut_quoted _ _ apart, next]
    simp

end Evald.Lib.Literal
