import Evald.Calls

/-! # What the ledger keeps and remembers

A span is dropped only for its call key: when the key was remembered before the batch or
met earlier in it.  Every key of a batch is known after it, and as long as nothing has
been forgotten what was known stays known.
-/

namespace Evald.CallLedger

/-- A span that is never dropped. -/
def Free (s : NormalizedSpan) : Prop := anchorOf s ≠ none ∨ keyOf s = none

/-- The key a span makes known. -/
def mark (s : NormalizedSpan) : Option String := (anchorOf s).or (keyOf s)

theorem mem_register {keys : List String} {key k : String} :
    k ∈ register keys key ↔ k ∈ keys ∨ k = key := by
  unfold register
  split
  · next known =>
    constructor
    · exact .inl
    · rintro (known' | rfl)
      · exact known'
      · exact known
  · simp

/-! ## One batch -/

section Cons

variable {ledger : CallLedger} {keys : List String} {s : NormalizedSpan}
  {rest : List NormalizedSpan}

theorem filterFrom_anchor {anchor : String} (isAnchor : anchorOf s = some anchor) :
    filterFrom ledger keys (s :: rest) =
      (s :: (filterFrom ledger (register keys anchor) rest).1,
        (filterFrom ledger (register keys anchor) rest).2) := by
  rw [filterFrom, isAnchor]

theorem filterFrom_plain (noAnchor : anchorOf s = none) (noKey : keyOf s = none) :
    filterFrom ledger keys (s :: rest) =
      (s :: (filterFrom ledger keys rest).1, (filterFrom ledger keys rest).2) := by
  rw [filterFrom, noAnchor, noKey]

theorem filterFrom_copy {key : String} (noAnchor : anchorOf s = none)
    (hasKey : keyOf s = some key) (known : key ∈ ledger.set ∨ key ∈ keys) :
    filterFrom ledger keys (s :: rest) = filterFrom ledger keys rest := by
  rw [filterFrom, noAnchor, hasKey]
  exact if_pos known

theorem filterFrom_first {key : String} (noAnchor : anchorOf s = none)
    (hasKey : keyOf s = some key) (fresh : ¬ (key ∈ ledger.set ∨ key ∈ keys)) :
    filterFrom ledger keys (s :: rest) =
      (s :: (filterFrom ledger (keys ++ [key]) rest).1,
        (filterFrom ledger (keys ++ [key]) rest).2) := by
  rw [filterFrom, noAnchor, hasKey]
  exact if_neg fresh

end Cons

theorem filterFrom_sublist (ledger : CallLedger) (keys : List String)
    (spans : List NormalizedSpan) : (filterFrom ledger keys spans).1.Sublist spans := by
  induction spans generalizing keys with
  | nil => exact .slnil
  | cons s rest inductionHypothesis =>
    unfold filterFrom
    cases anchorOf s with
    | some anchor => exact (inductionHypothesis _).cons_cons s
    | none =>
      cases keyOf s with
      | none => exact (inductionHypothesis _).cons_cons s
      | some key =>
        simp only
        split
        · exact (inductionHypothesis _).cons s
        · exact (inductionHypothesis _).cons_cons s

theorem mem_filterFrom_of_free {ledger : CallLedger} {keys : List String}
    {spans : List NormalizedSpan} {s : NormalizedSpan} (member : s ∈ spans) (free : Free s) :
    s ∈ (filterFrom ledger keys spans).1 := by
  induction spans generalizing keys with
  | nil => cases member
  | cons x rest inductionHypothesis =>
    unfold filterFrom
    cases member with
    | head =>
      cases isAnchor : anchorOf s with
      | some anchor => exact List.mem_cons_self
      | none =>
        have noKey : keyOf s = none := by simpa [Free, isAnchor] using free
        rw [noKey]
        exact List.mem_cons_self
    | tail _ later =>
      cases anchorOf x with
      | some anchor => exact List.mem_cons_of_mem _ (inductionHypothesis later)
      | none =>
        cases keyOf x with
        | none => exact List.mem_cons_of_mem _ (inductionHypothesis later)
        | some key =>
          simp only
          split
          · exact inductionHypothesis later
          · exact List.mem_cons_of_mem _ (inductionHypothesis later)

theorem free_or_new_of_mem_filterFrom {ledger : CallLedger} {keys : List String}
    {spans : List NormalizedSpan} {s : NormalizedSpan}
    (kept : s ∈ (filterFrom ledger keys spans).1) :
    Free s ∨ ∃ key, keyOf s = some key ∧ key ∉ ledger.set ∧ key ∉ keys := by
  -- on the batch: a span is an anchor, has no key, or has one that is dropped or new
  induction spans generalizing keys with
  | nil => cases kept
  | cons x rest inductionHypothesis =>
    unfold filterFrom at kept
    cases isAnchor : anchorOf x with
    | some anchor =>
      simp only [isAnchor] at kept
      cases kept with
      | head => exact .inl (.inl (by simp [isAnchor]))
      | tail _ later =>
        refine (inductionHypothesis later).imp_right ?_
        intro ⟨key, hasKey, fresh, unmet⟩
        exact ⟨key, hasKey, fresh, fun met => unmet (mem_register.mpr (.inl met))⟩
    | none =>
      cases hasKey : keyOf x with
      | none =>
        simp only [isAnchor, hasKey] at kept
        cases kept with
        | head => exact .inl (.inr hasKey)
        | tail _ later => exact inductionHypothesis later
      | some key =>
        simp only [isAnchor, hasKey] at kept
        split at kept
        · exact inductionHypothesis kept
        · next fresh =>
          rw [not_or] at fresh
          cases kept with
          | head => exact .inr ⟨key, hasKey, fresh.1, fresh.2⟩
          | tail _ later =>
            refine (inductionHypothesis later).imp_right ?_
            intro ⟨k, isKey, unknown, unmet⟩
            exact ⟨k, isKey, unknown, fun met => unmet (List.mem_append_left _ met)⟩

/-- Keys met before stay. -/
theorem subset_keys_filterFrom {ledger : CallLedger} {keys : List String}
    {spans : List NormalizedSpan} {k : String} (met : k ∈ keys) :
    k ∈ (filterFrom ledger keys spans).2 := by
  induction spans generalizing keys with
  | nil => exact met
  | cons s rest inductionHypothesis =>
    unfold filterFrom
    cases anchorOf s with
    | some anchor => exact inductionHypothesis (mem_register.mpr (.inl met))
    | none =>
      cases keyOf s with
      | none => exact inductionHypothesis met
      | some key =>
        simp only
        split
        · exact inductionHypothesis met
        · exact inductionHypothesis (List.mem_append_left _ met)

/-- The key of every span of a batch is known after it. -/
theorem known_of_mem {ledger : CallLedger} {keys : List String} {spans : List NormalizedSpan}
    {s : NormalizedSpan} (member : s ∈ spans) {k : String} (marked : mark s = some k) :
    k ∈ ledger.set ∨ k ∈ (filterFrom ledger keys spans).2 := by
  induction spans generalizing keys with
  | nil => cases member
  | cons x rest inductionHypothesis =>
    unfold filterFrom
    cases member with
    | head =>
      unfold mark at marked
      cases isAnchor : anchorOf s with
      | some anchor =>
        rw [isAnchor, Option.some_or, Option.some.injEq] at marked
        exact .inr (subset_keys_filterFrom (mem_register.mpr (.inr marked.symm)))
      | none =>
        rw [isAnchor, Option.none_or] at marked
        rw [marked]
        simp only
        split
        · next known =>
          exact known.imp_right subset_keys_filterFrom
        · exact .inr (subset_keys_filterFrom (by simp))
    | tail _ later =>
      cases anchorOf x with
      | some anchor => exact inductionHypothesis later
      | none =>
        cases keyOf x with
        | none => exact inductionHypothesis later
        | some key =>
          simp only
          split
          · exact inductionHypothesis later
          · exact inductionHypothesis later

/-- Every key to remember is the key of a span that is kept. -/
theorem marked_of_mem_keys {ledger : CallLedger} {keys : List String}
    {spans : List NormalizedSpan} {k : String} (known : k ∈ (filterFrom ledger keys spans).2) :
    k ∈ keys ∨ ∃ s ∈ (filterFrom ledger keys spans).1, mark s = some k := by
  -- on the batch; a key joins the list with the span that is kept under it
  induction spans generalizing keys with
  | nil => exact .inl known
  | cons s rest inductionHypothesis =>
    unfold filterFrom at known ⊢
    cases isAnchor : anchorOf s with
    | some anchor =>
      simp only [isAnchor] at known ⊢
      rcases inductionHypothesis known with met | ⟨x, kept, marked⟩
      · refine (mem_register.mp met).imp_right ?_
        rintro rfl
        exact ⟨s, List.mem_cons_self, by simp [mark, isAnchor]⟩
      · exact .inr ⟨x, List.mem_cons_of_mem _ kept, marked⟩
    | none =>
      cases hasKey : keyOf s with
      | none =>
        simp only [isAnchor, hasKey] at known ⊢
        refine (inductionHypothesis known).imp_right ?_
        intro ⟨x, kept, marked⟩
        exact ⟨x, List.mem_cons_of_mem _ kept, marked⟩
      | some key =>
        simp only [isAnchor, hasKey] at known ⊢
        split
        · next dropped =>
          rw [if_pos dropped] at known
          exact inductionHypothesis known
        · next fresh =>
          rw [if_neg fresh] at known
          rcases inductionHypothesis known with met | ⟨x, kept, marked⟩
          · rcases List.mem_append.mp met with met | met
            · exact .inl met
            · rw [List.mem_singleton] at met
              subst met
              exact .inr ⟨s, List.mem_cons_self, by simp [mark, isAnchor, hasKey]⟩
          · exact .inr ⟨x, List.mem_cons_of_mem _ kept, marked⟩

/-- What comes after some spans is filtered with the keys met in them. -/
theorem filterFrom_append (ledger : CallLedger) (keys : List String)
    (before after : List NormalizedSpan) :
    filterFrom ledger keys (before ++ after) =
      ((filterFrom ledger keys before).1 ++
          (filterFrom ledger (filterFrom ledger keys before).2 after).1,
        (filterFrom ledger (filterFrom ledger keys before).2 after).2) := by
  induction before generalizing keys with
  | nil => rfl
  | cons s rest inductionHypothesis =>
    rw [List.cons_append]
    cases isAnchor : anchorOf s with
    | some anchor =>
      rw [filterFrom_anchor isAnchor, filterFrom_anchor isAnchor, inductionHypothesis,
        List.cons_append]
    | none =>
      cases hasKey : keyOf s with
      | none =>
        rw [filterFrom_plain isAnchor hasKey, filterFrom_plain isAnchor hasKey,
          inductionHypothesis, List.cons_append]
      | some key =>
        by_cases known : key ∈ ledger.set ∨ key ∈ keys
        · rw [filterFrom_copy isAnchor hasKey known, filterFrom_copy isAnchor hasKey known,
            inductionHypothesis]
        · rw [filterFrom_first isAnchor hasKey known, filterFrom_first isAnchor hasKey known,
            inductionHypothesis, List.cons_append]

/-- A span that can be dropped is kept only as the first of its key. -/
theorem pairwise_filterFrom (ledger : CallLedger) (keys : List String)
    (spans : List NormalizedSpan) :
    (filterFrom ledger keys spans).1.Pairwise
      (fun a b => anchorOf b = none → ∀ k, keyOf b = some k → mark a ≠ some k) := by
  induction spans generalizing keys with
  | nil => exact .nil
  | cons s rest inductionHypothesis =>
    -- a span kept behind `s` has a key that was not met up to `s`
    have behind (met : List String) (known : ∀ k, mark s = some k → k ∈ met) :
        ∀ b ∈ (filterFrom ledger met rest).1,
          anchorOf b = none → ∀ k, keyOf b = some k → mark s ≠ some k := by
      intro b kept unanchored k hasKey isMark
      cases free_or_new_of_mem_filterFrom kept with
      | inl free => simp [Free, unanchored, hasKey] at free
      | inr new =>
        obtain ⟨k', hasKey', -, unmet⟩ := new
        rw [hasKey, Option.some.injEq] at hasKey'
        exact unmet (hasKey' ▸ known k isMark)
    cases isAnchor : anchorOf s with
    | some anchor =>
      rw [filterFrom_anchor isAnchor]
      apply List.Pairwise.cons _ (inductionHypothesis _)
      apply behind
      intro k isMark
      rw [mark, isAnchor, Option.some_or, Option.some.injEq] at isMark
      exact mem_register.mpr (.inr isMark.symm)
    | none =>
      cases hasKey : keyOf s with
      | none =>
        rw [filterFrom_plain isAnchor hasKey]
        apply List.Pairwise.cons _ (inductionHypothesis _)
        apply behind
        intro k isMark
        simp [mark, isAnchor, hasKey] at isMark
      | some key =>
        by_cases known : key ∈ ledger.set ∨ key ∈ keys
        · rw [filterFrom_copy isAnchor hasKey known]
          exact inductionHypothesis keys
        · rw [filterFrom_first isAnchor hasKey known]
          apply List.Pairwise.cons _ (inductionHypothesis _)
          apply behind
          intro k isMark
          rw [mark, isAnchor, Option.none_or, hasKey, Option.some.injEq] at isMark
          simp [isMark]

/-- What a batch keeps, before it is prepared, and the keys to remember. -/
def keptOf (ledger : CallLedger) (spans : List NormalizedSpan) :
    List NormalizedSpan × List String :=
  if mayCarryKeys spans then ledger.filter spans else (spans, [])

theorem ingestBatch_eq (ledger : CallLedger) (p : Preparation) (spans : List NormalizedSpan) :
    ingestBatch ledger p spans =
      ((ledger.keptOf spans).1.map p.prepare,
        if (ledger.keptOf spans).2.isEmpty then ledger
        else ledger.remember (ledger.keptOf spans).2) := rfl

theorem mem_keptOf_of_free {ledger : CallLedger} {spans : List NormalizedSpan}
    {s : NormalizedSpan} (member : s ∈ spans) (free : Free s) : s ∈ (ledger.keptOf spans).1 := by
  unfold keptOf
  split
  · exact mem_filterFrom_of_free member free
  · exact member

theorem subset_keptOf (ledger : CallLedger) (spans : List NormalizedSpan) :
    (ledger.keptOf spans).1 ⊆ spans := by
  unfold keptOf
  split
  · exact (filterFrom_sublist ledger [] spans).subset
  · exact List.Subset.refl _

/-- A batch with a span so named is looked through. -/
theorem keptOf_of_named {ledger : CallLedger} {spans : List NormalizedSpan} {s : NormalizedSpan}
    (member : s ∈ spans) (named : Lib.startsWith s.name "claude_code." = true) :
    ledger.keptOf spans = filterFrom ledger [] spans :=
  if_pos (List.any_eq_true.mpr ⟨s, member, named⟩)

/-- Of a call that is not remembered one span is kept. -/
theorem exists_kept_of_unknown {ledger : CallLedger} {spans : List NormalizedSpan}
    {s : NormalizedSpan} (member : s ∈ spans) (named : Lib.startsWith s.name "claude_code." = true)
    {k : String} (marked : mark s = some k) (unknown : k ∉ ledger.set) :
    ∃ s' ∈ (ledger.keptOf spans).1, mark s' = some k := by
  rw [keptOf_of_named member named]
  have known : k ∈ (filterFrom ledger [] spans).2 :=
    (known_of_mem member marked).resolve_left unknown
  exact (marked_of_mem_keys known).resolve_left List.not_mem_nil

/-! ## What a later ledger lets through -/

/-- Is a span dropped, in a batch that is looked through, for a call stored before it? -/
def remembered (ledger : CallLedger) (s : NormalizedSpan) : Bool :=
  (anchorOf s).isNone && (keyOf s).any (fun key => key ∈ ledger.set)

theorem mem_filterFrom_of_not_remembered {first later : CallLedger}
    {keys keys' : List String} {spans : List NormalizedSpan} {s : NormalizedSpan}
    (met : ∀ k ∈ keys, k ∈ later.set ∨ k ∈ keys') (kept : s ∈ (filterFrom later keys' spans).1)
    (fresh : first.remembered s = false) : s ∈ (filterFrom first keys spans).1 := by
  induction spans generalizing keys keys' with
  | nil => cases kept
  | cons x rest inductionHypothesis =>
    cases isAnchor : anchorOf x with
    | some anchor =>
      have registered : ∀ k ∈ register keys anchor, k ∈ later.set ∨ k ∈ register keys' anchor := by
        intro k isKey
        cases mem_register.mp isKey with
        | inl before => exact (met k before).imp_right (fun met' => mem_register.mpr (.inl met'))
        | inr this => exact .inr (mem_register.mpr (.inr this))
      rw [filterFrom_anchor isAnchor] at kept ⊢
      cases kept with
      | head => exact List.mem_cons_self
      | tail _ behind => exact List.mem_cons_of_mem _ (inductionHypothesis registered behind)
    | none =>
      cases hasKey : keyOf x with
      | none =>
        rw [filterFrom_plain isAnchor hasKey] at kept ⊢
        cases kept with
        | head => exact List.mem_cons_self
        | tail _ behind => exact List.mem_cons_of_mem _ (inductionHypothesis met behind)
      | some key =>
        have metBoth : ∀ k ∈ keys ++ [key], k ∈ later.set ∨ k ∈ keys' ++ [key] := by
          intro k isKey
          cases List.mem_append.mp isKey with
          | inl before => exact (met k before).imp_right (List.mem_append_left _)
          | inr this => exact .inr (List.mem_append_right _ this)
        have metLater : ∀ k ∈ keys, k ∈ later.set ∨ k ∈ keys' ++ [key] := fun k before =>
          (met k before).imp_right (List.mem_append_left _)
        by_cases known : key ∈ later.set ∨ key ∈ keys'
        · rw [filterFrom_copy isAnchor hasKey known] at kept
          by_cases knownFirst : key ∈ first.set ∨ key ∈ keys
          · rw [filterFrom_copy isAnchor hasKey knownFirst]
            exact inductionHypothesis met kept
          · have metKnown : ∀ k ∈ keys ++ [key], k ∈ later.set ∨ k ∈ keys' := by
              intro k isKey
              cases List.mem_append.mp isKey with
              | inl before => exact met k before
              | inr this => exact List.mem_singleton.mp this ▸ known
            rw [filterFrom_first isAnchor hasKey knownFirst]
            exact List.mem_cons_of_mem _ (inductionHypothesis metKnown kept)
        · rw [filterFrom_first isAnchor hasKey known] at kept
          by_cases knownFirst : key ∈ first.set ∨ key ∈ keys
          · rw [filterFrom_copy isAnchor hasKey knownFirst]
            -- what the batch has met, the later call has met too
            have inFirst : key ∈ first.set :=
              knownFirst.resolve_right (fun before => known (met key before))
            cases kept with
            | head => simp [remembered, isAnchor, hasKey, inFirst] at fresh
            | tail _ behind => exact inductionHypothesis metLater behind
          · rw [filterFrom_first isAnchor hasKey knownFirst]
            cases kept with
            | head => exact List.mem_cons_self
            | tail _ behind => exact List.mem_cons_of_mem _ (inductionHypothesis metBoth behind)

/-- A span that a later call lets through was kept by the first one, unless its call was
remembered then. -/
theorem mem_keptOf_of_not_remembered {first later : CallLedger}
    {spans : List NormalizedSpan} {s : NormalizedSpan} (kept : s ∈ (later.keptOf spans).1)
    (fresh : first.remembered s = false) : s ∈ (first.keptOf spans).1 := by
  unfold keptOf at kept ⊢
  split
  · rename_i named
    rw [if_pos named] at kept
    exact mem_filterFrom_of_not_remembered (by simp) kept fresh
  · rename_i unnamed
    rw [if_neg unnamed] at kept
    exact kept

/-! ## What is remembered -/

/-- Fewer keys are remembered than fit. -/
def Fits (ledger : CallLedger) : Prop := ledger.order.length < capacity

theorem forgetOldest_of_fits {set : Std.ExtTreeSet String} {order : List String}
    (fits : (forgetOldest set order).Fits) :
    forgetOldest set order = { set := set, order := order } := by
  induction order generalizing set with
  | nil => rfl
  | cons old rest inductionHypothesis =>
    unfold forgetOldest at fits ⊢
    split
    · next full =>
      -- one more than fits would leave exactly as many as fit
      rw [if_pos full] at fits
      rw [inductionHypothesis fits] at fits
      simp only [Fits, List.length_cons] at full fits
      omega
    · rfl

theorem mem_foldl_insertKey {ledger : CallLedger} {keys : List String} {k : String} :
    k ∈ (keys.foldl insertKey ledger).set ↔ k ∈ ledger.set ∨ k ∈ keys := by
  induction keys generalizing ledger with
  | nil => simp
  | cons key keys inductionHypothesis =>
    have inserted : k ∈ (ledger.insertKey key).set ↔ k ∈ ledger.set ∨ k = key := by
      unfold insertKey
      split
      · next known =>
        constructor
        · exact .inl
        · rintro (known' | rfl)
          · exact known'
          · exact known
      · simp only [Std.ExtTreeSet.mem_insert, Std.LawfulEqOrd.compare_eq_iff_eq]
        rw [or_comm, eq_comm]
    rw [List.foldl_cons, inductionHypothesis, inserted, List.mem_cons, or_assoc]

theorem length_le_foldl_insertKey (ledger : CallLedger) (keys : List String) :
    ledger.order.length ≤ (keys.foldl insertKey ledger).order.length := by
  induction keys generalizing ledger with
  | nil => exact Nat.le_refl _
  | cons key keys inductionHypothesis =>
    have inserted : ledger.order.length ≤ (ledger.insertKey key).order.length := by
      unfold insertKey
      split
      · exact Nat.le_refl _
      · simp
    exact Nat.le_trans inserted (inductionHypothesis _)

/-- As long as keys fit, remembering forgets none. -/
theorem remember_of_fits {ledger : CallLedger} {keys : List String}
    (fits : (ledger.remember keys).Fits) : ledger.remember keys = keys.foldl insertKey ledger := by
  unfold remember at fits ⊢
  exact forgetOldest_of_fits fits

theorem mem_remember {ledger : CallLedger} {keys : List String} {k : String}
    (fits : (ledger.remember keys).Fits) :
    k ∈ (ledger.remember keys).set ↔ k ∈ ledger.set ∨ k ∈ keys := by
  rw [remember_of_fits fits, mem_foldl_insertKey]

theorem fits_of_remember {ledger : CallLedger} {keys : List String}
    (fits : (ledger.remember keys).Fits) : ledger.Fits := by
  have all := remember_of_fits fits
  rw [all] at fits
  exact Nat.lt_of_le_of_lt (length_le_foldl_insertKey ledger keys) fits

/-- Keys that are known change nothing. -/
theorem remember_known {ledger : CallLedger} {keys : List String} (fits : ledger.Fits)
    (known : ∀ k ∈ keys, k ∈ ledger.set) : ledger.remember keys = ledger := by
  have unchanged : keys.foldl insertKey ledger = ledger := by
    induction keys with
    | nil => rfl
    | cons key keys inductionHypothesis =>
      have here : ledger.insertKey key = ledger := if_pos (known key List.mem_cons_self)
      rw [List.foldl_cons, here]
      exact inductionHypothesis (fun k member => known k (List.mem_cons_of_mem _ member))
  unfold remember
  rw [unchanged]
  cases ledger with
  | mk set order =>
    cases order with
    | nil => rfl
    | cons old rest =>
      have room : ¬ capacity < (old :: rest).length := by
        unfold Fits at fits
        simp only at fits
        omega
      simp only [forgetOldest, if_neg room]

end Evald.CallLedger
