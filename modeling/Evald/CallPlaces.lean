import Evald.Lib.Entries
import Evald.NestedCalls

/-! # Tool calls in another order, at other places

The calls of a session, each under its identity.  What is folded and what is repeated does
not depend on the order of the calls, nor on where a call sits that no other call hangs under
(`Alike`).
-/

namespace Evald.Sessions

open Evald.Lib

abbrev CallEntry := String × ToolCall

/-- Nothing depends on where the call sits: it has an id, no call is under it, and no other
call of its trace starts when it does. -/
def Free (entries : List CallEntry) (k : String) : Prop :=
  ∀ c, (k, c) ∈ entries → c.byId = true ∧
    (∀ e ∈ entries, e.2.traceId = c.traceId → e.2.parentSpanId ≠ some c.spanId) ∧
    ∀ e ∈ entries, e.1 ≠ k → e.2.traceId = c.traceId → e.2.start ≠ c.start

/-- One call, with its places left out. -/
structure AlikeCall (c c' : ToolCall) : Prop where
  name : c.name = c'.name
  failed : c.failed = c'.failed
  traceId : c.traceId = c'.traceId
  start : c.start = c'.start
  arguments : c.arguments = c'.arguments
  byId : c.byId = c'.byId

theorem AlikeCall.symm {c c' : ToolCall} (alike : AlikeCall c c') : AlikeCall c' c :=
  ⟨alike.name.symm, alike.failed.symm, alike.traceId.symm, alike.start.symm,
    alike.arguments.symm, alike.byId.symm⟩

/-- No two calls are of one span. -/
def Apart (entries : List CallEntry) : Prop :=
  ∀ e ∈ entries, ∀ e' ∈ entries, e.2.traceId = e'.2.traceId → e.2.spanId = e'.2.spanId →
    e.1 = e'.1

/-- The same calls, in any order; those that are not free are at the same places. -/
structure Alike (entries entries' : List CallEntry) : Prop where
  keys : (entries.map Prod.fst).Perm (entries'.map Prod.fst)
  distinct : (entries.map Prod.fst).Nodup
  apart : Apart entries
  apart' : Apart entries'
  calls : ∀ k c c', (k, c) ∈ entries → (k, c') ∈ entries' → AlikeCall c c'
  places : ∀ k c c', (k, c) ∈ entries → (k, c') ∈ entries' →
    c.spanId = c'.spanId ∧ c.parentSpanId = c'.parentSpanId ∨
      Free entries k ∧ Free entries' k

namespace Alike

variable {entries entries' : List CallEntry} (alike : Alike entries entries')
include alike

theorem symm : Alike entries' entries where
  keys := alike.keys.symm
  distinct := alike.keys.nodup_iff.mp alike.distinct
  apart := alike.apart'
  apart' := alike.apart
  calls k c c' listed listed' := (alike.calls k c' c listed' listed).symm
  places k c c' listed listed' := by
    cases alike.places k c' c listed' listed with
    | inl same => exact .inl ⟨same.1.symm, same.2.symm⟩
    | inr free => exact .inr free.symm

theorem length_eq : entries.length = entries'.length := by
  have lengths := alike.keys.length_eq
  rwa [List.length_map, List.length_map] at lengths

/-- A key has one place in a list. -/
theorem place_unique {i j : Nat} {k : String} {c d : ToolCall}
    (held : entries[i]? = some (k, c)) (held' : entries[j]? = some (k, d)) : i = j := by
  have keyAt {i : Nat} {c : ToolCall} (held : entries[i]? = some (k, c)) :
      (entries.map Prod.fst)[i]? = some k := by rw [List.getElem?_map, held]; rfl
  have within := (List.getElem?_eq_some_iff.mp (keyAt held)).1
  exact (List.getElem?_inj within alike.distinct).mp ((keyAt held).trans (keyAt held').symm)

theorem call_unique {k : String} {c d : ToolCall} (listed : (k, c) ∈ entries)
    (listed' : (k, d) ∈ entries) : c = d := by
  obtain ⟨i, held⟩ := List.mem_iff_getElem?.mp listed
  obtain ⟨j, held'⟩ := List.mem_iff_getElem?.mp listed'
  rw [alike.place_unique held held', held'] at held
  cases held
  rfl

theorem callAt_eq_some_iff {traceId spanId : String} {p : Nat} :
    callAt (entries.map Prod.snd) traceId spanId = some p ↔
      ∃ k d, entries[p]? = some (k, d) ∧ d.traceId = traceId ∧ d.spanId = spanId := by
  have heldAt {q : Nat} {d : ToolCall} (listed : (entries.map Prod.snd)[q]? = some d) :
      ∃ k, entries[q]? = some (k, d) := by
    rw [List.getElem?_map] at listed
    obtain ⟨⟨k, d'⟩, held, isD⟩ := Option.map_eq_some_iff.mp listed
    rw [← isD]
    exact ⟨k, held⟩
  have found {q : Nat} (called : callAt (entries.map Prod.snd) traceId spanId = some q) :
      ∃ k d, entries[q]? = some (k, d) ∧ d.traceId = traceId ∧ d.spanId = spanId := by
    obtain ⟨⟨d, q'⟩, first, isQ⟩ := Option.map_eq_some_iff.mp called
    cases isQ
    have place := List.find?_some first
    have listed := List.mem_reverse.mp (List.mem_of_find?_eq_some first)
    obtain ⟨k, held⟩ := heldAt (List.mk_mem_zipIdx_iff_getElem?.mp listed)
    simp only [Bool.and_eq_true, decide_eq_true_eq] at place
    exact ⟨k, d, held, place.1, place.2⟩
  constructor
  · exact found
  · intro ⟨k, d, held, trace, span⟩
    cases called : callAt (entries.map Prod.snd) traceId spanId with
    | some q =>
      obtain ⟨k', d', held', trace', span'⟩ := found called
      have same := alike.apart (k, d) (List.mem_of_getElem? held) (k', d')
        (List.mem_of_getElem? held') (trace.trans trace'.symm) (span.trans span'.symm)
      have isKey : k = k' := same
      rw [isKey] at held
      rw [alike.place_unique held held']
    | none =>
      rw [callAt, Option.map_eq_none_iff, List.find?_eq_none] at called
      have listed : (d, p) ∈ (entries.map Prod.snd).zipIdx.reverse := by
        rw [List.mem_reverse, List.mk_mem_zipIdx_iff_getElem?, List.getElem?_map, held]
        rfl
      exact absurd (by simp [trace, span]) (called (d, p) listed)

/-- The parent of one call is one call, which is not free, at its own place. -/
theorem namedParent {i i' p : Nat} {k name : String} {c c' : ToolCall}
    (held : entries[i]? = some (k, c)) (held' : entries'[i']? = some (k, c'))
    (bound : ¬ (Free entries k ∧ Free entries' k))
    (parent : namedParent (entries.map Prod.snd) name i = some p) :
    ∃ p' k' d d', Sessions.namedParent (entries'.map Prod.snd) name i' = some p' ∧
      entries[p]? = some (k', d) ∧ entries'[p']? = some (k', d') ∧
      ¬ (Free entries k' ∧ Free entries' k') := by
  have listed := List.mem_of_getElem? held
  have listed' := List.mem_of_getElem? held'
  have trace := (alike.calls k c c' listed listed').traceId
  obtain ⟨-, parents⟩ := (alike.places k c c' listed listed').resolve_right bound
  have atI : (entries.map Prod.snd)[i]? = some c := by rw [List.getElem?_map, held]; rfl
  have atI' : (entries'.map Prod.snd)[i']? = some c' := by rw [List.getElem?_map, held']; rfl
  simp only [Sessions.namedParent, atI] at parent
  obtain ⟨looked, named⟩ := Option.filter_eq_some_iff.mp parent
  obtain ⟨parentSpan, hasParent, called⟩ := Option.bind_eq_some_iff.mp looked
  obtain ⟨k', d, heldAbove, traceAbove, spanAbove⟩ := alike.callAt_eq_some_iff.mp called
  have listedAbove := List.mem_of_getElem? heldAbove
  -- a call that this one hangs under is not free
  have boundAbove : ¬ (Free entries k' ∧ Free entries' k') := by
    intro ⟨free, _⟩
    obtain ⟨-, alone, -⟩ := free d listedAbove
    exact alone (k, c) listed traceAbove.symm (by rw [hasParent, spanAbove])
  have keyAbove : k' ∈ entries'.map Prod.fst :=
    alike.keys.mem_iff.mp (List.mem_map.mpr ⟨_, listedAbove, rfl⟩)
  obtain ⟨⟨key, d'⟩, listedAbove', isKey⟩ := List.mem_map.mp keyAbove
  cases isKey
  have above := alike.calls _ d d' listedAbove listedAbove'
  obtain ⟨spans, -⟩ := (alike.places _ d d' listedAbove listedAbove').resolve_right boundAbove
  obtain ⟨p', heldAbove'⟩ := List.mem_iff_getElem?.mp listedAbove'
  refine ⟨p', key, d, d', ?_, heldAbove, heldAbove', boundAbove⟩
  have called' : callAt (entries'.map Prod.snd) c'.traceId parentSpan = some p' :=
    alike.symm.callAt_eq_some_iff.mpr ⟨key, d', heldAbove',
      by rw [← above.traceId, traceAbove, trace], by rw [← spans, spanAbove]⟩
  simp only [Sessions.namedParent, atI', ← parents, hasParent, Option.bind_some, called']
  rw [Option.filter_eq_some_iff]
  refine ⟨rfl, ?_⟩
  rw [List.getElem?_map, heldAbove] at named
  rw [List.getElem?_map, heldAbove']
  simpa [above.name] using named

theorem namedParent_eq_none {i i' : Nat} {k name : String} {c c' : ToolCall}
    (held : entries[i]? = some (k, c)) (held' : entries'[i']? = some (k, c'))
    (bound : ¬ (Free entries k ∧ Free entries' k))
    (none : Sessions.namedParent (entries.map Prod.snd) name i = none) :
    Sessions.namedParent (entries'.map Prod.snd) name i' = Option.none := by
  cases parent : Sessions.namedParent (entries'.map Prod.snd) name i' with
  | none => rfl
  | some p' =>
    obtain ⟨p, k', d, d', parent', -⟩ := alike.symm.namedParent held' held
      (fun free => bound free.symm) parent
    rw [none] at parent'
    cases parent'

/-- The two walks meet the same calls. -/
theorem outermost {i i' : Nat} {k : String} {c c' : ToolCall}
    (held : entries[i]? = some (k, c)) (held' : entries'[i']? = some (k, c'))
    (name : String) (fuel : Nat) {place place' : Nat} {key : String} {d d' : ToolCall}
    (heldAt : entries[place]? = some (key, d)) (heldAt' : entries'[place']? = some (key, d'))
    (bound : ¬ (Free entries key ∧ Free entries' key)) :
    ∃ k' e e', entries[outermost (entries.map Prod.snd) name i fuel place]? = some (k', e) ∧
      entries'[Sessions.outermost (entries'.map Prod.snd) name i' fuel place']? =
        some (k', e') := by
  induction fuel generalizing place place' key d d' with
  | zero => exact ⟨key, d, d', heldAt, heldAt'⟩
  | succ fuel inductionHypothesis =>
    unfold Sessions.outermost
    cases parent : Sessions.namedParent (entries.map Prod.snd) name place with
    | none =>
      rw [alike.namedParent_eq_none heldAt heldAt' bound parent]
      exact ⟨key, d, d', heldAt, heldAt'⟩
    | some p =>
      obtain ⟨p', above, e, e', parent', heldAbove, heldAbove', boundAbove⟩ :=
        alike.namedParent heldAt heldAt' bound parent
      rw [parent']
      simp only
      by_cases back : p = i
      · rw [back, held] at heldAbove
        cases heldAbove
        rw [if_pos back, if_pos (alike.symm.place_unique heldAbove' held')]
        exact ⟨key, d, d', heldAt, heldAt'⟩
      · have away : p' ≠ i' := by
          intro back'
          rw [back', held'] at heldAbove'
          cases heldAbove'
          exact back (alike.place_unique heldAbove held)
        rw [if_neg back, if_neg away]
        exact inductionHypothesis heldAbove heldAbove' boundAbove

/-- One call is folded into one call, or into none. -/
theorem mergedInto {i i' : Nat} {k : String} {c c' : ToolCall}
    (held : entries[i]? = some (k, c)) (held' : entries'[i']? = some (k, c')) :
    (mergedInto (entries.map Prod.snd) c i = none ∧
        Sessions.mergedInto (entries'.map Prod.snd) c' i' = none) ∨
      ∃ t t' k' d d', Sessions.mergedInto (entries.map Prod.snd) c i = some t ∧
        Sessions.mergedInto (entries'.map Prod.snd) c' i' = some t' ∧
        entries[t]? = some (k', d) ∧ entries'[t']? = some (k', d') := by
  have same := alike.calls k c c' (List.mem_of_getElem? held) (List.mem_of_getElem? held')
  unfold Sessions.mergedInto
  rw [← same.byId, ← same.name, List.length_map, List.length_map, ← alike.length_eq]
  cases keyed : c.byId with
  | true => exact .inl ⟨rfl, rfl⟩
  | false =>
    -- a call without an id has a place of its own in neither list
    have bound : ¬ (Free entries k ∧ Free entries' k) := by
      intro ⟨free, _⟩
      have hasId := (free c (List.mem_of_getElem? held)).1
      rw [keyed] at hasId
      cases hasId
    obtain ⟨k', e, e', reached, reached'⟩ :=
      alike.outermost held held' c.name entries.length held held' bound
    simp only [Bool.false_eq_true, if_false]
    by_cases stays : Sessions.outermost (entries.map Prod.snd) c.name i entries.length i = i
    · rw [stays, held] at reached
      cases reached
      left
      rw [if_pos stays, if_pos (alike.symm.place_unique reached' held')]
      exact ⟨rfl, rfl⟩
    -- the outermost call is another entry in one list, so it is in the other
    · have moves :
          Sessions.outermost (entries'.map Prod.snd) c.name i' entries.length i' ≠ i' := by
        intro stays'
        rw [stays', held'] at reached'
        cases reached'
        exact stays (alike.place_unique reached held)
      right
      rw [if_neg stays, if_neg moves]
      exact ⟨_, _, k', e, e', rfl, rfl, reached, reached'⟩

end Alike

/-! ## The calls that are left -/

def failedInto (entries : List CallEntry) (t : Nat) : Bool :=
  entries.zipIdx.any (fun e =>
    mergedInto (entries.map Prod.snd) e.1.2 e.2 = some t && e.1.2.failed)

/-- The calls that are left, each under its identity. -/
def merged (entries : List CallEntry) : List CallEntry :=
  (entries.zipIdx.filter (fun e =>
      (mergedInto (entries.map Prod.snd) e.1.2 e.2).isNone)).map (fun e =>
    (e.1.1, { e.1.2 with failed := e.1.2.failed || failedInto entries e.2 }))

theorem mergeCalls_eq (entries : List CallEntry) :
    mergeCalls (entries.map Prod.snd) = (merged entries).map Prod.snd := by
  have into : (entries.map Prod.snd).zipIdx.map (fun c =>
        (c.1, mergedInto (entries.map Prod.snd) c.1 c.2)) =
      entries.zipIdx.map (fun e => (e.1.2, mergedInto (entries.map Prod.snd) e.1.2 e.2)) := by
    apply List.ext_getElem?
    intro i
    simp only [List.getElem?_map, List.getElem?_zipIdx, Option.map_map]
    rfl
  have places : (entries.zipIdx.map (fun e =>
        (e.1.2, mergedInto (entries.map Prod.snd) e.1.2 e.2))).zipIdx =
      entries.zipIdx.map (fun e =>
        ((e.1.2, mergedInto (entries.map Prod.snd) e.1.2 e.2), e.2)) := by
    apply List.ext_getElem?
    intro i
    simp only [List.getElem?_map, List.getElem?_zipIdx, Option.map_map, Nat.zero_add]
    rfl
  unfold mergeCalls merged failedInto
  simp only [into, places, List.filter_map, List.map_map, List.any_map]
  rfl

theorem mem_merged {entries : List CallEntry} {k : String} {r : ToolCall} :
    (k, r) ∈ merged entries ↔ ∃ t c, entries[t]? = some (k, c) ∧
      mergedInto (entries.map Prod.snd) c t = none ∧
        r = { c with failed := c.failed || failedInto entries t } := by
  unfold merged
  simp only [List.mem_map, List.mem_filter, Prod.exists, Option.isNone_iff_eq_none,
    List.mk_mem_zipIdx_iff_getElem?, Prod.mk.injEq]
  constructor
  · rintro ⟨k, c, t, ⟨held, stays⟩, rfl, rfl⟩
    exact ⟨t, c, held, stays, rfl⟩
  · rintro ⟨t, c, held, stays, rfl⟩
    exact ⟨k, c, t, ⟨held, stays⟩, rfl, rfl⟩

theorem nodup_merged {entries : List CallEntry} (distinct : (entries.map Prod.fst).Nodup) :
    ((merged entries).map Prod.fst).Nodup := by
  have keys : (merged entries).map Prod.fst = (entries.zipIdx.filter (fun e =>
      (mergedInto (entries.map Prod.snd) e.1.2 e.2).isNone)).map (fun e => e.1.1) := by
    unfold merged
    rw [List.map_map]
    rfl
  rw [keys]
  apply List.Nodup.sublist (List.filter_sublist.map _)
  have all : entries.zipIdx.map (fun e => e.1.1) = entries.map Prod.fst := by
    conv_rhs => rw [← List.zipIdx_map_fst 0 entries, List.map_map]
    rfl
  rwa [all]

namespace Alike

variable {entries entries' : List CallEntry} (alike : Alike entries entries')
include alike

/-- Where there is an entry of a key in one list there is one in the other. -/
theorem exists_held {i : Nat} {k : String} {c : ToolCall} (held : entries[i]? = some (k, c)) :
    ∃ (i' : Nat) (c' : ToolCall), entries'[i']? = some (k, c') := by
  have listed : k ∈ entries'.map Prod.fst :=
    alike.keys.mem_iff.mp (List.mem_map.mpr ⟨_, List.mem_of_getElem? held, rfl⟩)
  obtain ⟨⟨key, c'⟩, listed', isKey⟩ := List.mem_map.mp listed
  cases isKey
  obtain ⟨i', held'⟩ := List.mem_iff_getElem?.mp listed'
  exact ⟨i', c', held'⟩

theorem failedInto_imp {t t' : Nat} {k : String} {c c' : ToolCall}
    (held : entries[t]? = some (k, c)) (held' : entries'[t']? = some (k, c'))
    (failed : failedInto entries t = true) : failedInto entries' t' = true := by
  obtain ⟨⟨⟨key, d⟩, i⟩, listed, into⟩ := List.any_eq_true.mp failed
  have heldD := List.mk_mem_zipIdx_iff_getElem?.mp listed
  simp only [Bool.and_eq_true, decide_eq_true_eq] at into
  obtain ⟨target, hasFailed⟩ := into
  obtain ⟨i', d', heldD'⟩ := alike.exists_held heldD
  obtain ⟨stays, -⟩ | ⟨u, u', key', e, e', target', into', heldE, heldE'⟩ :=
    alike.mergedInto heldD heldD'
  · rw [target] at stays
    cases stays
  · rw [target] at target'
    cases target'
    rw [held] at heldE
    cases heldE
    have sameTarget := alike.symm.place_unique heldE' held'
    have same := alike.calls key d d' (List.mem_of_getElem? heldD) (List.mem_of_getElem? heldD')
    unfold failedInto
    rw [List.any_eq_true]
    refine ⟨((key, d'), i'), List.mk_mem_zipIdx_iff_getElem?.mpr heldD', ?_⟩
    simp only [Bool.and_eq_true, decide_eq_true_eq]
    exact ⟨sameTarget ▸ into', same.failed ▸ hasFailed⟩

theorem failedInto_eq {t t' : Nat} {k : String} {c c' : ToolCall}
    (held : entries[t]? = some (k, c)) (held' : entries'[t']? = some (k, c')) :
    failedInto entries t = failedInto entries' t' := by
  rw [Bool.eq_iff_iff]
  exact ⟨alike.failedInto_imp held held', alike.symm.failedInto_imp held' held⟩

/-- A call that is left is left in both, as one call. -/
theorem mem_merged {k : String} {r : ToolCall} (listed : (k, r) ∈ merged entries) :
    ∃ r', (k, r') ∈ merged entries' ∧ AlikeCall r r' := by
  obtain ⟨t, c, held, stays, rfl⟩ := Sessions.mem_merged.mp listed
  obtain ⟨t', c', held'⟩ := alike.exists_held held
  have same := alike.calls k c c' (List.mem_of_getElem? held) (List.mem_of_getElem? held')
  obtain ⟨-, stays'⟩ | ⟨u, -, -, -, -, target, -⟩ := alike.mergedInto held held'
  · refine ⟨{ c' with failed := c'.failed || failedInto entries' t' },
      Sessions.mem_merged.mpr ⟨t', c', held', stays', rfl⟩, ?_⟩
    exact ⟨same.name, by rw [same.failed, alike.failedInto_eq held held'], same.traceId,
      same.start, same.arguments, same.byId⟩
  · rw [stays] at target
    cases target

theorem keys_merged (k : String) :
    k ∈ (merged entries).map Prod.fst ↔ k ∈ (merged entries').map Prod.fst := by
  have oneWay {entries entries' : List CallEntry} (alike : Alike entries entries')
      (listed : k ∈ (merged entries).map Prod.fst) : k ∈ (merged entries').map Prod.fst := by
    obtain ⟨⟨key, r⟩, among, isKey⟩ := List.mem_map.mp listed
    cases isKey
    obtain ⟨r', among', -⟩ := alike.mem_merged among
    exact List.mem_map.mpr ⟨_, among', rfl⟩
  exact ⟨oneWay alike, oneWay alike.symm⟩

/-- Two calls are in one order at either places. -/
theorem callOrder_eq {k l : String} {a a' b b' : ToolCall} (isA : (k, a) ∈ entries)
    (isA' : (k, a') ∈ entries') (isB : (l, b) ∈ entries) (isB' : (l, b') ∈ entries') :
    callOrder a b = callOrder a' b' := by
  have sameA := alike.calls k a a' isA isA'
  have sameB := alike.calls l b b' isB isB'
  unfold callOrder
  rw [← sameA.traceId, ← sameB.traceId, ← sameA.start, ← sameB.start]
  by_cases traces : a.traceId = b.traceId
  · by_cases starts : a.start = b.start
    · simp only [traces, starts, ne_eq, not_true, if_false]
      have together {k l : String} {a b : ToolCall} (differ : k ≠ l) (isA : (k, a) ∈ entries)
          (isB : (l, b) ∈ entries) (traces : a.traceId = b.traceId) (starts : a.start = b.start) :
          ¬ (Free entries k ∧ Free entries' k) := by
        intro ⟨free, _⟩
        exact (free a isA).2.2 (l, b) isB differ.symm traces.symm starts.symm
      by_cases same : k = l
      · cases same
        rw [alike.call_unique isA isB, alike.symm.call_unique isA' isB']
        simp
      · obtain ⟨spanA, -⟩ := (alike.places k a a' isA isA').resolve_right
          (together same isA isB traces starts)
        obtain ⟨spanB, -⟩ := (alike.places l b b' isB isB').resolve_right
          (together (Ne.symm same) isB isA traces.symm starts.symm)
        rw [spanA, spanB]
    · simp [traces, starts]
  · simp [traces]

end Alike

/-! ## What is reported of the calls -/

/-- The order of the report as a linear order. -/
def callPlace (c : ToolCall) : String ×ₗ Nat ×ₗ String :=
  toLex (c.traceId, toLex (c.start, c.spanId))

theorem callOrder_iff {a b : ToolCall} : callOrder a b = true ↔ callPlace a ≤ callPlace b := by
  unfold callOrder callPlace
  simp only [Prod.Lex.toLex_le_toLex]
  by_cases traces : a.traceId = b.traceId
  · by_cases starts : a.start = b.start
    · simp [traces, starts]
    · simp [traces, starts]
  · simp [traces]

theorem pairwise_mergeSort_callOrder (calls : List ToolCall) :
    (calls.mergeSort callOrder).Pairwise (fun a b => callOrder a b = true) := by
  apply List.pairwise_mergeSort
  · intro a b c first second
    rw [callOrder_iff] at first second ⊢
    exact first.trans second
  · intro a b
    rw [Bool.or_eq_true, callOrder_iff, callOrder_iff]
    exact le_total _ _

/-- The order of the report depends on the calls only. -/
theorem mergeSort_callOrder_perm {calls calls' : List ToolCall} (perm : calls.Perm calls')
    (apart : ∀ a ∈ calls, ∀ b ∈ calls, a.traceId = b.traceId → a.spanId = b.spanId → a = b) :
    calls.mergeSort callOrder = calls'.mergeSort callOrder := by
  have sorted : (calls.mergeSort callOrder).Perm (calls'.mergeSort callOrder) :=
    (List.mergeSort_perm calls _).trans (perm.trans (List.mergeSort_perm calls' _).symm)
  apply List.Perm.eq_of_pairwise _ (pairwise_mergeSort_callOrder calls)
    (pairwise_mergeSort_callOrder calls') sorted
  intro a b isA isB before after
  rw [callOrder_iff] at before after
  have same : callPlace a = callPlace b := le_antisymm before after
  simp only [callPlace, EmbeddingLike.apply_eq_iff_eq, Prod.mk.injEq] at same
  have isA' := List.mem_mergeSort.mp isA
  have isB' := perm.mem_iff.mpr (List.mem_mergeSort.mp isB)
  exact apart a isA' b isB' same.1 same.2.2

/-- Repeats along two lists of the same calls. -/
structure AlikeRepeats (r r' : Repeats) : Prop where
  repeated : r.repeated = r'.repeated
  longest : r.longest = r'.longest
  run : r.run = r'.run
  previous : (r.previous = none ∧ r'.previous = none) ∨
    ∃ p p', r.previous = some p ∧ r'.previous = some p' ∧ AlikeCall p p'

theorem AlikeRepeats.next {r r' : Repeats} (alike : AlikeRepeats r r') {c c' : ToolCall}
    (call : AlikeCall c c') : AlikeRepeats (r.next c) (r'.next c') := by
  have same : (r.previous.any (fun p => p.traceId = c.traceId && p.name = c.name &&
        c.arguments.isSome && p.arguments = c.arguments)) =
      (r'.previous.any (fun p => p.traceId = c'.traceId && p.name = c'.name &&
        c'.arguments.isSome && p.arguments = c'.arguments)) := by
    obtain ⟨first, first'⟩ | ⟨p, p', isP, isP', before⟩ := alike.previous
    · rw [first, first']
      rfl
    · rw [isP, isP']
      simp only [Option.any_some, before.traceId, before.name, before.arguments, call.traceId,
        call.name, call.arguments]
  unfold Repeats.next
  rw [same, alike.repeated, alike.longest, alike.run, call.arguments]
  exact ⟨rfl, rfl, rfl, .inr ⟨c, c', rfl, rfl, call⟩⟩

theorem alikeRepeats_foldl (both : List (String × ToolCall × ToolCall))
    (alike : ∀ e ∈ both, AlikeCall e.2.1 e.2.2) {r r' : Repeats} (before : AlikeRepeats r r') :
    AlikeRepeats ((both.map (fun e => e.2.1)).foldl Repeats.next r)
      ((both.map (fun e => e.2.2)).foldl Repeats.next r') := by
  induction both generalizing r r' with
  | nil => exact before
  | cons e both inductionHypothesis =>
    obtain ⟨here, later⟩ := List.forall_mem_cons.mp alike
    exact inductionHypothesis later (before.next here)

/-- How many calls of each name. -/
def countNames (calls : List ToolCall) : Std.ExtTreeMap String Nat :=
  calls.foldl (fun tools c => tools.insert c.name (tools.getD c.name 0 + 1)) ∅

theorem getD_countNames (calls : List ToolCall) (name : String) :
    (countNames calls)[name]? =
      if name ∈ calls.map ToolCall.name then some ((calls.map ToolCall.name).count name)
      else none := by
  unfold countNames
  induction calls using List.reverseRecOn with
  | nil => simp
  | append_singleton calls c inductionHypothesis =>
    rw [List.foldl_concat, getElem?_insert_if, List.map_append, List.count_append]
    by_cases here : name = c.name
    · have listed : name ∈ calls.map ToolCall.name ++ [c].map ToolCall.name := by simp [here]
      have once : ([c].map ToolCall.name).count name = 1 := by simp [here]
      rw [if_pos here, if_pos listed, once, ← here, Std.ExtTreeMap.getD_eq_getD_getElem?,
        inductionHypothesis]
      by_cases earlier : name ∈ calls.map ToolCall.name
      · rw [if_pos earlier, Option.getD_some]
      · rw [if_neg earlier, Option.getD_none, List.count_eq_zero_of_not_mem earlier]
    · rw [if_neg here, inductionHypothesis]
      simp [here, Ne.symm here]

theorem countNames_perm {calls calls' : List ToolCall}
    (perm : (calls.map ToolCall.name).Perm (calls'.map ToolCall.name)) :
    countNames calls = countNames calls' := by
  apply Std.ExtTreeMap.ext_getElem?
  intro name
  rw [getD_countNames, getD_countNames, perm.count_eq]
  simp only [perm.mem_iff]

namespace Alike

variable {entries entries' : List CallEntry} (alike : Alike entries entries')
include alike

theorem apart_merged {a b : ToolCall}
    (isA : a ∈ (merged entries).map Prod.snd) (isB : b ∈ (merged entries).map Prod.snd)
    (traces : a.traceId = b.traceId) (spans : a.spanId = b.spanId) : a = b := by
  obtain ⟨⟨k, r⟩, listed, isR⟩ := List.mem_map.mp isA
  obtain ⟨⟨l, r'⟩, listed', isR'⟩ := List.mem_map.mp isB
  cases isR
  cases isR'
  obtain ⟨t, c, held, -, isMerged⟩ := Sessions.mem_merged.mp listed
  obtain ⟨t', c', held', -, isMerged'⟩ := Sessions.mem_merged.mp listed'
  rw [isMerged, isMerged'] at traces spans
  have sameKey : k = l := alike.apart (k, c) (List.mem_of_getElem? held) (l, c')
    (List.mem_of_getElem? held') traces spans
  cases sameKey
  cases alike.place_unique held held'
  rw [held] at held'
  cases held'
  exact isMerged.trans isMerged'.symm

/-- What is reported of the calls is the same. -/
theorem reported :
    let calls := mergeCalls (entries.map Prod.snd)
    let calls' := mergeCalls (entries'.map Prod.snd)
    calls.length = calls'.length ∧
      (calls.filter ToolCall.failed).length = (calls'.filter ToolCall.failed).length ∧
      countNames calls = countNames calls' ∧
      (repeats calls).repeated = (repeats calls').repeated ∧
      (repeats calls).longest = (repeats calls').longest := by
  simp only [mergeCalls_eq]
  obtain ⟨both, isFirst, isSecond⟩ := exists_beside (nodup_merged alike.distinct)
    (nodup_merged alike.symm.distinct) alike.keys_merged
  have firsts : both.map (fun e => e.2.1) = (merged entries).map Prod.snd := by
    rw [← isFirst, List.map_map]
    rfl
  have seconds : (both.map (fun e => e.2.2)).Perm ((merged entries').map Prod.snd) := by
    have calls := isSecond.map Prod.snd
    rwa [List.map_map] at calls
  have listed (e) (isE : e ∈ both) :
      (e.1, e.2.1) ∈ merged entries ∧ (e.1, e.2.2) ∈ merged entries' := by
    constructor
    · rw [← isFirst]
      exact List.mem_map_of_mem isE
    · rw [← isSecond.mem_iff]
      exact List.mem_map_of_mem isE
  have sameCall : ∀ e ∈ both, AlikeCall e.2.1 e.2.2 := by
    intro e isE
    obtain ⟨first, second⟩ := listed e isE
    obtain ⟨r', second', same⟩ := alike.mem_merged first
    obtain ⟨t, c, held, -, isMerged⟩ := Sessions.mem_merged.mp second
    obtain ⟨t', c', held', -, isMerged'⟩ := Sessions.mem_merged.mp second'
    cases alike.symm.place_unique held held'
    rw [held] at held'
    cases held'
    rw [isMerged]
    rwa [isMerged'] at same
  have sameOrder : ∀ a ∈ both, ∀ b ∈ both,
      callOrder a.2.1 b.2.1 = callOrder a.2.2 b.2.2 := by
    intro a isA b isB
    obtain ⟨firstA, secondA⟩ := listed a isA
    obtain ⟨firstB, secondB⟩ := listed b isB
    obtain ⟨_, c, heldA, -, mergedA⟩ := Sessions.mem_merged.mp firstA
    obtain ⟨_, c', heldA', -, mergedA'⟩ := Sessions.mem_merged.mp secondA
    obtain ⟨_, d, heldB, -, mergedB⟩ := Sessions.mem_merged.mp firstB
    obtain ⟨_, d', heldB', -, mergedB'⟩ := Sessions.mem_merged.mp secondB
    rw [mergedA, mergedA', mergedB, mergedB']
    show callOrder c d = callOrder c' d'
    exact alike.callOrder_eq (List.mem_of_getElem? heldA) (List.mem_of_getElem? heldA')
      (List.mem_of_getElem? heldB) (List.mem_of_getElem? heldB')
  have names : ((merged entries).map Prod.snd).map ToolCall.name =
      (both.map (fun e => e.2.2)).map ToolCall.name := by
    rw [← firsts, List.map_map, List.map_map]
    exact List.map_congr_left (fun e isE => (sameCall e isE).name)
  have failures : (both.map (fun e => e.2.1)).filter ToolCall.failed =
      (both.filter (fun e => e.2.2.failed)).map (fun e => e.2.1) := by
    rw [List.filter_map]
    congr 1
    exact List.filter_congr (fun e isE => (sameCall e isE).failed)
  have sorted : (both.map (fun e => e.2.2)).mergeSort callOrder =
      ((merged entries').map Prod.snd).mergeSort callOrder := by
    apply mergeSort_callOrder_perm seconds
    intro a isA b isB
    exact alike.symm.apart_merged (seconds.mem_iff.mp isA) (seconds.mem_iff.mp isB)
  -- the two lists are sorted side by side
  have first := List.map_mergeSort (r := fun a b => callOrder a.2.1 b.2.1) (s := callOrder)
    (f := fun e : String × ToolCall × ToolCall => e.2.1) (l := both) (fun _ _ _ _ => rfl)
  have second := List.map_mergeSort (r := fun a b => callOrder a.2.1 b.2.1) (s := callOrder)
    (f := fun e : String × ToolCall × ToolCall => e.2.2) (l := both) sameOrder
  have run := alikeRepeats_foldl (both.mergeSort (fun a b => callOrder a.2.1 b.2.1))
    (fun e isE => sameCall e (List.mem_mergeSort.mp isE))
    (show AlikeRepeats {} {} from ⟨rfl, rfl, rfl, .inl ⟨rfl, rfl⟩⟩)
  rw [first, second, sorted, firsts] at run
  refine ⟨?_, ?_, ?_, run.repeated, run.longest⟩
  · rw [← firsts, ← seconds.length_eq, List.length_map, List.length_map]
  · rw [← (seconds.filter _).length_eq, ← firsts, failures, List.length_map, List.filter_map,
      List.length_map]
    rfl
  · apply countNames_perm
    rw [names]
    exact seconds.map _

end Alike

end Evald.Sessions
