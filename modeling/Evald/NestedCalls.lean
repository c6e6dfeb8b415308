import Evald.Lib.Chain
import Evald.Sessions

/-! # Nested tool calls

Folding copies traced at two layers.  Every call without an id looks for its own outermost
same-named ancestor; on parent links that close on a cycle two calls can choose each other,
and then both are gone (`nothingLost_iff`).
-/

namespace Evald.Sessions

open Evald.Lib Function

/-- `mergeNested` on the calls in the order in which the hash map returns them. -/
def mergeCalls (calls : List ToolCall) : List ToolCall :=
  let into := calls.zipIdx.map (fun c => (c.1, mergedInto calls c.1 c.2))
  let failedInto (i : Nat) := into.any (fun c => c.2 = some i && c.1.failed)
  (into.zipIdx.filter (fun c => c.1.2.isNone)).map (fun c =>
    { c.1.1 with failed := c.1.1.failed || failedInto c.2 })

theorem mergeNested_eq (tools : Std.ExtTreeMap String ToolCall) :
    mergeNested tools = mergeCalls (tools.toList.map Prod.snd) := rfl

section Merge

variable (calls : List ToolCall)

/-! ## What is to be kept -/

def Survives (i : Nat) : Prop := ∃ c, calls[i]? = some c ∧ mergedInto calls c i = none

def FoldedInto (i t : Nat) : Prop := ∃ c, calls[i]? = some c ∧ mergedInto calls c i = some t

/-- The call at place `t` is returned as `r`: as it is, and failed when it or a call folded
into it failed. -/
def ReturnedAs (t : Nat) (r : ToolCall) : Prop :=
  ∃ c, calls[t]? = some c ∧ r = { c with failed := r.failed } ∧
    (r.failed = true ↔
      c.failed = true ∨ ∃ i d, FoldedInto calls i t ∧ calls[i]? = some d ∧ d.failed = true)

structure NothingLost : Prop where
  kept : ∀ i < calls.length,
    Survives calls i ∨ ∃ t, FoldedInto calls i t ∧ Survives calls t
  nonempty : calls ≠ [] → mergeCalls calls ≠ []
  failed : ∃ places : List Nat, places.Nodup ∧ (∀ t, t ∈ places ↔ Survives calls t) ∧
    places.Forall₂ (ReturnedAs calls) (mergeCalls calls)

/-! ## Chains of parents -/

/-- The parent call, when it is of the same tool. -/
def sameParent (place : Nat) : Option Nat :=
  match calls[place]? with
  | some c => namedParent calls c.name place
  | none => none

/-- One layer up, or the call itself where there is none. -/
def up (place : Nat) : Nat := (sameParent calls place).getD place

/-- The chain of same-named parents ends, at a call without one or at its own parent. -/
def Rooted (i : Nat) : Prop := ∃ k, IsFixedPt (up calls) ((up calls)^[k] i)

/-- The `k`-th call up the chain is the one before call `i` itself, or the last that is
looked at. -/
def Turns (i k : Nat) : Prop :=
  k ≤ calls.length ∧ (∀ j, 0 < j → j ≤ k → (up calls)^[j] i ≠ i) ∧
    (k = calls.length ∨ (up calls)^[k + 1] i = i)

/-- The chain of a call ends, or it turns at a call with an id. -/
def Anchored (i : Nat) : Prop :=
  Rooted calls i ∨ ∃ k d, Turns calls i k ∧ calls[(up calls)^[k] i]? = some d ∧ d.byId = true

end Merge

variable {calls : List ToolCall} {name : String} {i place : Nat} {c : ToolCall}

theorem namedParent_eq_some {p : Nat} (parent : namedParent calls name place = some p) :
    ∃ d, calls[p]? = some d ∧ d.name = name := by
  unfold namedParent at parent
  split at parent
  · cases parent
  · obtain ⟨-, named⟩ := Option.filter_eq_some_iff.mp parent
    cases held : calls[p]? with
    | none => simp [held] at named
    | some d => exact ⟨d, rfl, by simpa [held] using named⟩

theorem sameParent_of_held (held : calls[place]? = some c) :
    sameParent calls place = namedParent calls c.name place := by
  simp [sameParent, held]

theorem up_lt (within : place < calls.length) : up calls place < calls.length := by
  unfold up
  cases parent : sameParent calls place with
  | none => exact within
  | some p =>
    rw [sameParent_of_held (List.getElem?_eq_getElem within)] at parent
    obtain ⟨d, held, -⟩ := namedParent_eq_some parent
    exact (List.getElem?_eq_some_iff.mp held).1

theorem iterate_up_lt (within : place < calls.length) (k : Nat) :
    (up calls)^[k] place < calls.length := by
  have inRange := iterate_mem (f := up calls) (s := Finset.range calls.length)
    (fun y isPlace => Finset.mem_range.mpr (up_lt (Finset.mem_range.mp isPlace)))
    (Finset.mem_range.mpr within) k
  exact Finset.mem_range.mp inRange

/-- The walk goes up the chain and stops where it ends, before it is back, or when it has
taken as many steps as it may. -/
theorem outermost_spec (fuel : Nat) (held : calls[place]? = some c) :
    ∃ k ≤ fuel, outermost calls c.name i fuel place = (up calls)^[k] place ∧
      (∀ j, 0 < j → j ≤ k → (up calls)^[j] place ≠ i) ∧
      (IsFixedPt (up calls) ((up calls)^[k] place) ∨ k = fuel ∨
        (up calls)^[k + 1] place = i) := by
  -- on the fuel, which bounds the steps up
  induction fuel generalizing place c with
  | zero => exact ⟨0, le_rfl, rfl, fun j positive none => by omega, .inr (.inl rfl)⟩
  | succ fuel inductionHypothesis =>
    have parent := sameParent_of_held held
    unfold outermost
    cases above : namedParent calls c.name place with
    | none =>
      refine ⟨0, Nat.zero_le _, rfl, fun j positive none => by omega, .inl ?_⟩
      show up calls place = place
      rw [up, parent, above, Option.getD_none]
    | some p =>
      have isUp : up calls place = p := by rw [up, parent, above, Option.getD_some]
      -- the walk stops before it comes back to where it began
      by_cases back : p = i
      · refine ⟨0, Nat.zero_le _, if_pos back, fun j positive none => by omega, .inr (.inr ?_)⟩
        show up calls place = i
        rw [isUp, back]
      · obtain ⟨d, heldAbove, named⟩ := namedParent_eq_some above
        obtain ⟨k, few, reached, away, stops⟩ := inductionHypothesis heldAbove
        rw [named] at reached
        refine ⟨k + 1, Nat.succ_le_succ few, ?_, ?_, ?_⟩
        · rw [iterate_succ_apply, isUp, ← reached]
          exact if_neg back
        · intro j positive inReach
          cases j with
          | zero => omega
          | succ j =>
            rw [iterate_succ_apply, isUp]
            cases j with
            | zero => exact back
            | succ j => exact away (j + 1) (Nat.succ_pos j) (Nat.le_of_succ_le_succ inReach)
        · rw [iterate_succ_apply, isUp, iterate_succ_apply, isUp]
          cases stops with
          | inl ends => exact .inl ends
          | inr turns =>
            cases turns with
            | inl last => exact .inr (.inl (congrArg Nat.succ last))
            | inr returns => exact .inr (.inr returns)

/-! ## Which calls survive -/

theorem survives_iff (held : calls[i]? = some c) :
    Survives calls i ↔ c.byId = true ∨ IsFixedPt (up calls) i := by
  have within : i < calls.length := (List.getElem?_eq_some_iff.mp held).1
  have only : Survives calls i ↔ mergedInto calls c i = none := by
    constructor
    · intro ⟨d, held', stays⟩
      rw [held] at held'
      cases held'
      exact stays
    · exact fun stays => ⟨c, held, stays⟩
  rw [only]
  unfold mergedInto
  cases c.byId with
  | true => simp
  | false =>
    obtain ⟨k, few, reached, away, stops⟩ := outermost_spec (i := i) calls.length held
    simp only [Bool.false_eq_true, if_false, reached, false_or, ite_eq_left_iff, reduceCtorEq,
      imp_false, not_not]
    constructor
    · intro same
      have first : k = 0 := by
        by_contra moved
        exact away k (Nat.pos_of_ne_zero moved) le_rfl same
      rw [first] at stops
      obtain ends | last | returns := stops
      · exact ends
      · omega
      · exact returns
    · exact fun fixed => fixed.iterate k

/-- A call without an id survives, or what it folds into does, exactly when it is anchored. -/
theorem kept_iff (held : calls[i]? = some c) (unkeyed : c.byId = false) :
    (Survives calls i ∨ ∃ t, FoldedInto calls i t ∧ Survives calls t) ↔ Anchored calls i := by
  have within : i < calls.length := (List.getElem?_eq_some_iff.mp held).1
  obtain ⟨k, few, reached, away, stops⟩ := outermost_spec (i := i) calls.length held
  have into : mergedInto calls c i =
      if (up calls)^[k] i = i then none else some ((up calls)^[k] i) := by
    rw [mergedInto, unkeyed]
    simp only [Bool.false_eq_true, if_false, reached]
  have atTarget : (Survives calls i ∨ ∃ t, FoldedInto calls i t ∧ Survives calls t) ↔
      Survives calls ((up calls)^[k] i) := by
    by_cases same : (up calls)^[k] i = i
    · rw [if_pos same] at into
      rw [same]
      constructor
      · intro either
        exact ⟨c, held, into⟩
      · exact .inl
    · rw [if_neg same] at into
      constructor
      · intro either
        cases either with
        | inl survives =>
          obtain ⟨d, held', stays⟩ := survives
          rw [held] at held'
          cases held'
          rw [into] at stays
          cases stays
        | inr folded =>
          obtain ⟨t, ⟨d, held', isTarget⟩, survives⟩ := folded
          rw [held] at held'
          cases held'
          rw [into] at isTarget
          cases isTarget
          exact survives
      · exact fun survives => .inr ⟨_, ⟨c, held, into⟩, survives⟩
  have target := List.getElem?_eq_getElem (iterate_up_lt within k)
  rw [atTarget, survives_iff target]
  have returns_fixed (back : (up calls)^[k + 1] i = i) (rooted : Rooted calls i) :
      IsFixedPt (up calls) ((up calls)^[k] i) := by
    obtain ⟨m, ends⟩ := rooted
    exact isFixedPt_iterate_of_le (k := 0) (isFixedPt_of_periodic (Nat.succ_pos k) back ends)
      (Nat.zero_le k)
  constructor
  · intro either
    cases either with
    | inr ends => exact .inl ⟨k, ends⟩
    | inl keyed =>
      obtain ends | last | returns := stops
      · exact .inl ⟨k, ends⟩
      · exact .inr ⟨k, _, ⟨few, away, .inl last⟩, target, keyed⟩
      · exact .inr ⟨k, _, ⟨few, away, .inr returns⟩, target, keyed⟩
  · intro anchored
    obtain ends | turns := stops
    · exact .inr ends
    · cases anchored with
      | inl rooted =>
        right
        cases turns with
        | inl last =>
          obtain ⟨m, ends⟩ := rooted
          have inTime := isFixedPt_iterate_card (s := Finset.range calls.length)
            (fun y isPlace => Finset.mem_range.mpr (up_lt (Finset.mem_range.mp isPlace)))
            (Finset.mem_range.mpr within) ends
          rwa [Finset.card_range, ← last] at inTime
        | inr returns => exact returns_fixed returns rooted
      | inr atKeyed =>
        obtain ⟨k', d, ⟨few', away', turns'⟩, held', keyed⟩ := atKeyed
        left
        -- there is one place only where the chain turns
        have same : k = k' := by
          apply le_antisymm
          · by_contra later
            cases turns' with
            | inl last => omega
            | inr returns => exact away (k' + 1) (Nat.succ_pos k') (by omega) returns
          · by_contra later
            cases turns with
            | inl last => omega
            | inr returns => exact away' (k + 1) (Nat.succ_pos k) (by omega) returns
        rw [← same, target] at held'
        cases held'
        exact keyed

/-! ## What is returned -/

theorem mem_zipIdx_into {e : ToolCall × Option Nat} {t : Nat} :
    (e, t) ∈ (calls.zipIdx.map (fun c => (c.1, mergedInto calls c.1 c.2))).zipIdx ↔
      calls[t]? = some e.1 ∧ mergedInto calls e.1 t = e.2 := by
  rw [List.mk_mem_zipIdx_iff_getElem?, List.getElem?_map, List.getElem?_zipIdx, Nat.zero_add]
  cases held : calls[t]? with
  | none => simp
  | some c =>
    simp only [Option.map_some, Option.some.injEq]
    constructor
    · intro same
      rw [← same]
      exact ⟨rfl, rfl⟩
    · intro ⟨isC, into⟩
      rw [isC, into]

/-- The survivors are returned one by one, with the failures of what is folded into them. -/
theorem mergeCalls_failed (calls : List ToolCall) :
    ∃ places : List Nat, places.Nodup ∧ (∀ t, t ∈ places ↔ Survives calls t) ∧
      places.Forall₂ (ReturnedAs calls) (mergeCalls calls) := by
  refine ⟨((calls.zipIdx.map (fun c => (c.1, mergedInto calls c.1 c.2))).zipIdx.filter
    (fun c => c.1.2.isNone)).map Prod.snd, ?_, ?_, ?_⟩
  · apply List.Nodup.sublist (List.filter_sublist.map Prod.snd)
    rw [List.zipIdx_map_snd]
    exact List.nodup_range'
  · intro t
    simp only [List.mem_map, List.mem_filter, Option.isNone_iff_eq_none, Prod.exists,
      mem_zipIdx_into]
    constructor
    · rintro ⟨c, target, t, ⟨⟨held, into⟩, stays⟩, rfl⟩
      exact ⟨c, held, into.trans stays⟩
    · intro ⟨c, held, into⟩
      exact ⟨c, none, t, ⟨⟨held, into⟩, rfl⟩, rfl⟩
  · unfold mergeCalls
    rw [List.forall₂_map_left_iff, List.forall₂_map_right_iff, List.forall₂_same]
    intro ⟨e, t⟩ listed
    obtain ⟨held, -⟩ := mem_zipIdx_into.mp (List.mem_filter.mp listed).1
    refine ⟨e.1, held, rfl, ?_⟩
    simp only [Bool.or_eq_true, List.any_eq_true, Bool.and_eq_true, decide_eq_true_eq]
    apply or_congr_right
    constructor
    · intro ⟨e', among, target, failed⟩
      obtain ⟨i, within, isE⟩ := List.mem_iff_getElem.mp among
      obtain ⟨held', into⟩ := mem_zipIdx_into.mp
        (List.mk_mem_zipIdx_iff_getElem?.mpr (List.getElem?_eq_some_iff.mpr ⟨within, isE⟩))
      exact ⟨i, e'.1, ⟨e'.1, held', into.trans target⟩, held', failed⟩
    · intro ⟨i, d, ⟨d', held', target⟩, held'', failed⟩
      rw [held'] at held''
      cases held''
      have among := mem_zipIdx_into (e := (d, some t)).mpr ⟨held', target⟩
      exact ⟨_, List.fst_mem_of_mem_zipIdx among, rfl, failed⟩

/-- Nothing is lost exactly when every call without an id is anchored. -/
theorem nothingLost_iff (calls : List ToolCall) : NothingLost calls ↔
    ∀ i c, calls[i]? = some c → c.byId = false → Anchored calls i := by
  constructor
  · intro lossless i c held unkeyed
    exact (kept_iff held unkeyed).mp (lossless.kept i (List.getElem?_eq_some_iff.mp held).1)
  · intro anchored
    have kept : ∀ i < calls.length,
        Survives calls i ∨ ∃ t, FoldedInto calls i t ∧ Survives calls t := by
      intro i within
      have held := List.getElem?_eq_getElem within
      cases keyed : calls[i].byId with
      | true => exact .inl ((survives_iff held).mpr (.inl keyed))
      | false => exact (kept_iff held keyed).mpr (anchored i _ held keyed)
    refine ⟨kept, ?_, mergeCalls_failed calls⟩
    intro isNonempty nothing
    obtain ⟨places, -, survivors, returned⟩ := mergeCalls_failed calls
    rw [nothing] at returned
    cases returned
    have survivor : ∃ t, Survives calls t := by
      cases kept 0 (List.length_pos_iff.mpr isNonempty) with
      | inl survives => exact ⟨0, survives⟩
      | inr folded =>
        obtain ⟨t, -, survives⟩ := folded
        exact ⟨t, survives⟩
    obtain ⟨t, survives⟩ := survivor
    exact List.not_mem_nil ((survivors t).mpr survives)

/-- A call of one tool, under another span of its trace. -/
def callUnder (spanId parent : String) : ToolCall :=
  { name := "grep"
    named := true
    failed := true
    traceId := "t"
    spanId := spanId
    parentSpanId := some parent
    start := 0
    arguments := none
    byId := false }

/-- Two calls, each under the other: both are gone. -/
theorem mutual_parents_lost : ¬ NothingLost [callUnder "a" "b", callUnder "b" "a"] := by
  intro lossless
  exact lossless.nonempty (by simp) (by decide)

end Evald.Sessions
