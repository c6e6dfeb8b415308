import Evald.Model
import Evald.Lib.GroupBy
import Evald.Lib.Walk
import Evald.Lib.Ancestry

/-! # Score rollup

What a trace scores when its spans are scored.  `SpanTree.build` finds the roots of
one trace's spans, inventing one for every part that closes on a cycle;
`shallowestCarriers` walks down from them and stops at the carriers of a name; and
`rollupTrace` combines what they carry.  The arithmetic of doubles is a parameter, as
nothing here depends on how it rounds.
-/

namespace Evald.Rollup

open Evald.Lib

/-- IEEE arithmetic. -/
structure FloatOps where
  add : F64 → F64 → F64
  div : F64 → F64 → F64
  min : F64 → F64 → F64
  max : F64 → F64 → F64
  ofNat : Nat → F64

/-- How several span scores combine into one trace-level value. -/
inductive RollupFn where
  | mean
  | min
  | max
  | sum
  | all
  | any
  deriving DecidableEq, Repr

def RollupFn.asStr : RollupFn → String
  | .mean => "mean"
  | .min => "min"
  | .max => "max"
  | .sum => "sum"
  | .all => "all"
  | .any => "any"

def sumOf (float : FloatOps) (values : List F64) : F64 := values.foldl float.add (.finite 0)

/-- `f64::from(bool)`. -/
def ofBool (float : FloatOps) (b : Bool) : F64 := float.ofNat b.toNat

/-- Combine contributor values. -/
def RollupFn.apply (float : FloatOps) (function : RollupFn) (values : List F64) : F64 :=
  match function with
  | .mean => float.div (sumOf float values) (float.ofNat values.length)
  | .min => values.foldl float.min (.infinite false)
  | .max => values.foldl float.max (.infinite true)
  | .sum => sumOf float values
  | .all => ofBool float (values.all (· ≠ .finite 0))
  | .any => ofBool float (values.any (· ≠ .finite 0))

/-- Which function to use for which score name. -/
structure RollupConfig where
  byName : Std.ExtTreeMap String RollupFn := ∅
  defaultNumeric : RollupFn := .mean

def RollupConfig.functionFor (config : RollupConfig) (name : String) (dataType : DataType) :
    RollupFn :=
  match config.byName[name]? with
  | some f => f
  | none =>
    match dataType with
    | .boolean => .all
    | _ => config.defaultNumeric

/-- One trace-level score, measured or derived. -/
structure RolledScore where
  name : String
  value : F64
  measured : Bool
  function : Option String
  n : Nat
  contributingSpanIds : List String
  dataType : DataType
  deriving DecidableEq, Repr

/-! ## The tree of one trace's spans -/

/-- Parent to children over one trace's spans. -/
structure SpanTree where
  children : Std.ExtTreeMap String (List String)
  roots : List String

def childrenOf (children : Std.ExtTreeMap String (List String)) (id : String) : List String :=
  children.getD id []

def edgeCount (children : Std.ExtTreeMap String (List String)) : Nat :=
  (children.toList.map (fun e => e.2.length)).sum

/-- A parent outside this trace is treated as absent, and so is the span itself. -/
def presentParent (present : Std.ExtTreeSet String) (span : NormalizedSpan) : Option String :=
  match span.parentSpanId with
  | some parent => if present.contains parent && parent != span.spanId then some parent else none
  | none => none

def presentIds (spans : List NormalizedSpan) : Std.ExtTreeSet String :=
  spans.foldl (fun present s => present.insert s.spanId) ∅

/-- One span of the first loop: under its parent, or a root. -/
def placeSpan (present : Std.ExtTreeSet String)
    (state : Std.ExtTreeMap String (List String) × List String) (span : NormalizedSpan) :
    Std.ExtTreeMap String (List String) × List String :=
  match presentParent present span with
  | some parent => (pushUnder state.1 parent span.spanId, state.2)
  | none => (state.1, state.2 ++ [span.spanId])

/-- `walk`: everything below `start` joins `reachable`. -/
def reach (children : Std.ExtTreeMap String (List String)) (start reachable : List String) :
    List String :=
  walk (childrenOf children) (start.length + edgeCount children) start reachable

/-- A component no root reaches gets the first of its ids as an entry point. -/
def addEntry (children : Std.ExtTreeMap String (List String)) (state : List String × List String)
    (id : String) : List String × List String :=
  if id ∈ state.2 then state else (state.1 ++ [id], reach children [id] state.2)

def SpanTree.build (spans : List NormalizedSpan) : SpanTree :=
  let present := presentIds spans
  let (children, roots) := spans.foldl (placeSpan present) (∅, [])
  let reachable := reach children roots []
  let unreachable := present.toList.filter (· ∉ reachable)
  { children := children, roots := (unreachable.foldl (addEntry children) (roots, reachable)).1 }

/-- The breadth-first loop: the queue, the visited spans and the carriers found. -/
def search (children : Std.ExtTreeMap String (List String)) (carried : String → Option Score) :
    Nat → List String → List String → List (String × Score) → List (String × Score)
  | 0, _, _, found => found
  | _ + 1, [], _, found => found
  | fuel + 1, id :: queue, visited, found =>
    if id ∈ visited then search children carried fuel queue visited found
    else
      match carried id with
      -- authoritative for this subtree: no descent below it
      | some score => search children carried fuel queue (visited ++ [id]) (found ++ [(id, score)])
      | none =>
        search children carried fuel (queue ++ childrenOf children id) (visited ++ [id]) found

/-- The scores of each span. -/
abbrev BySpan := Std.ExtTreeMap String (List Score)

/-- The score of `name` that a span carries: the first one. -/
def carriedScore (bySpan : BySpan) (name : String) (id : String) : Option Score :=
  (bySpan[id]?).bind (fun scores => scores.find? (fun s => s.name = name))

/-- The shallowest spans carrying `name`, one per branch. -/
def SpanTree.shallowestCarriers (tree : SpanTree) (name : String) (bySpan : BySpan) :
    List (String × Score) :=
  search tree.children (carriedScore bySpan name) (tree.roots.length + edgeCount tree.children)
    tree.roots [] []

/-! ## The rollup -/

def measuredScore (traceId : String) (out : Std.ExtTreeMap String RolledScore) (score : Score) :
    Std.ExtTreeMap String RolledScore :=
  match score.target, score.numValue with
  | .trace id, some value =>
    if id = traceId then
      out.insert score.name
        { name := score.name
          value := value
          measured := true
          function := none
          n := 1
          contributingSpanIds := []
          dataType := score.dataType }
    else out
  | _, _ => out

/-- A span score with a number, of a type that can be combined. -/
def numericSpanScore (score : Score) : Option (String × Score) :=
  match score.target with
  | .span id =>
    if score.numValue.isSome && !(score.dataType = .categorical || score.dataType = .text) then
      some (id, score)
    else none
  | _ => none

def indexBySpan (scores : List Score) : BySpan :=
  (scores.filterMap numericSpanScore).foldl (fun m e => pushUnder m e.1 e.2) ∅

/-- The names that some span carries, in order. -/
def scoredNames (bySpan : BySpan) : List String :=
  ((bySpan.toList.flatMap Prod.snd).foldl (fun names s => names.insert s.name)
    (∅ : Std.ExtTreeSet String)).toList

/-- The common type so far, or `Numeric` when two disagree. -/
def joinType (seen : Option DataType) (dataType : DataType) : Option DataType :=
  match seen with
  | some t => if t ≠ dataType then some .numeric else some t
  | none => some dataType

/-- One carrier: its value, its id and its type. -/
def combineCarrier (state : List F64 × List String × Option DataType) (carrier : String × Score) :
    List F64 × List String × Option DataType :=
  match carrier.2.numValue with
  | some v => (state.1 ++ [v], state.2.1 ++ [carrier.1], joinType state.2.2 carrier.2.dataType)
  | none => state

/-- What the carriers of one name roll up to. -/
def derivedScore (float : FloatOps) (config : RollupConfig) (tree : SpanTree) (bySpan : BySpan)
    (name : String) : Option RolledScore :=
  let carriers := tree.shallowestCarriers name bySpan
  if carriers.isEmpty then none
  else
    let (values, spanIds, seen) := carriers.foldl combineCarrier ([], [], none)
    let dataType := seen.getD .numeric
    if values.isEmpty then none
    else
      let function := config.functionFor name dataType
      some
        { name := name
          value := function.apply float values
          measured := false
          function := some function.asStr
          n := values.length
          contributingSpanIds := spanIds
          dataType := dataType }

/-- A measured trace score wins. -/
def rollName (float : FloatOps) (config : RollupConfig) (tree : SpanTree) (bySpan : BySpan)
    (out : Std.ExtTreeMap String RolledScore) (name : String) :
    Std.ExtTreeMap String RolledScore :=
  if name ∈ out then out
  else
    match derivedScore float config tree bySpan name with
    | some rolled => out.insert name rolled
    | none => out

/-- Every trace-level score for one trace, by name. -/
def rollup (float : FloatOps) (traceId : String) (spans : List NormalizedSpan)
    (scores : List Score) (config : RollupConfig) : Std.ExtTreeMap String RolledScore :=
  let measured := scores.foldl (measuredScore traceId) ∅
  let bySpan := indexBySpan scores
  if bySpan.isEmpty then measured
  else
    (scoredNames bySpan).foldl (rollName float config (SpanTree.build spans) bySpan) measured

def rollupTrace (float : FloatOps) (traceId : String) (spans : List NormalizedSpan)
    (scores : List Score) (config : RollupConfig) : List RolledScore :=
  (rollup float traceId spans scores config).toList.map Prod.snd

/-! ## What the tree is -/

/-- `p` is the present parent of `c`. -/
def ParentOf (spans : List NormalizedSpan) (p c : String) : Prop :=
  ∃ s ∈ spans, s.spanId = c ∧ presentParent (presentIds spans) s = some p

theorem mem_foldl_insert_spanId {spans : List NormalizedSpan} {present : Std.ExtTreeSet String}
    {id : String} :
    id ∈ spans.foldl (fun present s => present.insert s.spanId) present ↔
      (∃ s ∈ spans, s.spanId = id) ∨ id ∈ present := by
  induction spans generalizing present with
  | nil => simp
  | cons s spans inductionHypothesis =>
    rw [List.foldl_cons, inductionHypothesis, Std.ExtTreeSet.mem_insert,
      Std.LawfulEqOrd.compare_eq_iff_eq, List.exists_mem_cons_iff, or_assoc, or_left_comm]

theorem mem_presentIds {spans : List NormalizedSpan} {id : String} :
    id ∈ presentIds spans ↔ ∃ s ∈ spans, s.spanId = id := by
  rw [presentIds, mem_foldl_insert_spanId]
  simp

theorem presentParent_eq_some {present : Std.ExtTreeSet String} {span : NormalizedSpan}
    {p : String} :
    presentParent present span = some p ↔
      span.parentSpanId = some p ∧ p ∈ present ∧ p ≠ span.spanId := by
  unfold presentParent
  split
  · next parent pointer =>
    rw [pointer]
    split
    · next inside =>
      simp only [Bool.and_eq_true, bne_iff_ne, Std.ExtTreeSet.contains_iff_mem] at inside
      constructor
      · rintro same
        cases same
        exact ⟨rfl, inside⟩
      · rintro ⟨same, -⟩
        exact same
    · next outside =>
      simp only [Bool.and_eq_true, bne_iff_ne, Std.ExtTreeSet.contains_iff_mem] at outside
      constructor
      · intro impossible
        cases impossible
      · rintro ⟨same, inside⟩
        cases same
        exact absurd inside outside
  · next pointer => simp [pointer]

theorem childrenOf_pushUnder (children : Std.ExtTreeMap String (List String))
    (p p' id : String) :
    childrenOf (pushUnder children p id) p' =
      if p = p' then childrenOf children p' ++ [id] else childrenOf children p' := by
  unfold childrenOf
  rw [Std.ExtTreeMap.getD_eq_getD_getElem?, getElem?_pushUnder,
    Std.ExtTreeMap.getD_eq_getD_getElem?]
  split <;> rfl

/-- The first loop of `build`. -/
theorem foldl_placeSpan (present : Std.ExtTreeSet String) (spans : List NormalizedSpan)
    (children : Std.ExtTreeMap String (List String)) (roots : List String) :
    (∀ p, childrenOf (spans.foldl (placeSpan present) (children, roots)).1 p =
      childrenOf children p ++
        (spans.filter (fun s => presentParent present s = some p)).map NormalizedSpan.spanId) ∧
    (spans.foldl (placeSpan present) (children, roots)).2 =
      roots ++ (spans.filter (fun s => presentParent present s = none)).map
        NormalizedSpan.spanId := by
  induction spans generalizing children roots with
  | nil => simp
  | cons s spans inductionHypothesis =>
    rw [List.foldl_cons]
    cases parent : presentParent present s with
    | none =>
      have placed : placeSpan present (children, roots) s = (children, roots ++ [s.spanId]) := by
        rw [placeSpan, parent]
      rw [placed]
      obtain ⟨under, rest⟩ := inductionHypothesis children (roots ++ [s.spanId])
      refine ⟨fun p => ?_, ?_⟩
      · rw [under, List.filter_cons_of_neg (by simp [parent])]
      · rw [rest, List.filter_cons_of_pos (by simp [parent]), List.map_cons, List.append_assoc,
          List.singleton_append]
    | some q =>
      have placed : placeSpan present (children, roots) s =
          (pushUnder children q s.spanId, roots) := by
        rw [placeSpan, parent]
      rw [placed]
      obtain ⟨under, rest⟩ := inductionHypothesis (pushUnder children q s.spanId) roots
      refine ⟨fun p => ?_, ?_⟩
      · rw [under, childrenOf_pushUnder]
        by_cases here : q = p
        · rw [if_pos here, List.filter_cons_of_pos (by simp [parent, here]), List.map_cons,
            List.append_assoc, List.singleton_append]
        · rw [if_neg here, List.filter_cons_of_neg (by simp [parent, here])]
      · rw [rest, List.filter_cons_of_neg (by simp [parent])]

/-- The children map and the true roots of `build`. -/
def placed (spans : List NormalizedSpan) : Std.ExtTreeMap String (List String) × List String :=
  spans.foldl (placeSpan (presentIds spans)) (∅, [])

theorem mem_childrenOf {spans : List NormalizedSpan} {p c : String} :
    c ∈ childrenOf (placed spans).1 p ↔ ParentOf spans p c := by
  have empty : childrenOf ∅ p = [] := Std.ExtTreeMap.getD_empty
  rw [placed, (foldl_placeSpan _ _ _ _).1, empty, List.nil_append, List.mem_map]
  simp only [List.mem_filter, decide_eq_true_eq, ParentOf]
  constructor
  · rintro ⟨s, ⟨member, parent⟩, same⟩
    exact ⟨s, member, same, parent⟩
  · rintro ⟨s, member, same, parent⟩
    exact ⟨s, ⟨member, parent⟩, same⟩

theorem reaches_iff {spans : List NormalizedSpan} {x y : String} :
    Reaches (childrenOf (placed spans).1) x y ↔
      Relation.ReflTransGen (ParentOf spans) x y := by
  have same : (fun a b => b ∈ childrenOf (placed spans).1 a) = ParentOf spans :=
    funext fun a => funext fun b => propext mem_childrenOf
  rw [Reaches, same]

/-- The spans of the trace, by id. -/
def ids (spans : List NormalizedSpan) : Finset String :=
  (spans.map NormalizedSpan.spanId).toFinset

theorem mem_ids {spans : List NormalizedSpan} {id : String} :
    id ∈ ids spans ↔ ∃ s ∈ spans, s.spanId = id := by
  simp [ids]

theorem ParentOf.within {spans : List NormalizedSpan} {p c : String}
    (link : ParentOf spans p c) : p ∈ ids spans := by
  obtain ⟨s, -, -, parent⟩ := link
  exact mem_ids.mpr (mem_presentIds.mp (presentParent_eq_some.mp parent).2.1)

/-- With distinct ids a span has one parent. -/
theorem ParentOf.unique {spans : List NormalizedSpan}
    (distinct : (spans.map NormalizedSpan.spanId).Nodup) {p q c : String}
    (first : ParentOf spans p c) (second : ParentOf spans q c) : p = q := by
  obtain ⟨s, sMember, sId, sParent⟩ := first
  obtain ⟨t, tMember, tId, tParent⟩ := second
  have same := List.inj_on_of_nodup_map distinct sMember tMember (sId.trans tId.symm)
  subst same
  rw [sParent] at tParent
  exact Option.some.inj tParent

/-- The true roots. -/
theorem mem_placed_roots {spans : List NormalizedSpan}
    (distinct : (spans.map NormalizedSpan.spanId).Nodup) {r : String} :
    r ∈ (placed spans).2 ↔ r ∈ ids spans ∧ IsRoot (ParentOf spans) r := by
  rw [placed, (foldl_placeSpan _ _ _ _).2, List.nil_append, List.mem_map, mem_ids]
  simp only [List.mem_filter, decide_eq_true_eq]
  constructor
  · rintro ⟨s, ⟨member, parentless⟩, rfl⟩
    refine ⟨⟨s, member, rfl⟩, ?_⟩
    rintro ⟨p, t, tMember, same, parent⟩
    have equal := List.inj_on_of_nodup_map distinct tMember member same
    subst equal
    rw [parentless] at parent
    cases parent
  · rintro ⟨⟨s, member, rfl⟩, isRoot⟩
    refine ⟨s, ⟨member, ?_⟩, rfl⟩
    cases parent : presentParent (presentIds spans) s with
    | none => rfl
    | some p => exact absurd ⟨p, s, member, rfl, parent⟩ isRoot

/-! ## The entry points -/

theorem edgesLeft_le {children : Std.ExtTreeMap String (List String)}
    {expand : String → List String}
    (fewer : ∀ x, (expand x).length ≤ (childrenOf children x).length) (visited : List String) :
    edgesLeft expand children.keys visited ≤ edgeCount children := by
  have total : edgeCount children =
      (children.keys.map (fun k => (childrenOf children k).length)).sum := by
    rw [edgeCount, ← Std.ExtTreeMap.map_fst_toList_eq_keys, List.map_map]
    refine congrArg List.sum (List.map_congr_left (fun e listed => ?_))
    have found := Std.ExtTreeMap.mem_toList_iff_getElem?_eq_some.mp listed
    simp only [Function.comp, childrenOf, Std.ExtTreeMap.getD_eq_getD_getElem?, found,
      Option.getD_some]
  rw [total, edgesLeft]
  refine le_trans ((List.filter_sublist.map _).sum_le_sum (fun _ _ => Nat.zero_le _)) ?_
  exact List.sum_le_sum (fun x _ => fewer x)

theorem childrenOf_not_mem {children : Std.ExtTreeMap String (List String)} {x : String}
    (absent : x ∉ children.keys) : childrenOf children x = [] :=
  Std.ExtTreeMap.getD_eq_fallback (fun member => absent (Std.ExtTreeMap.mem_keys.mpr member))

/-- `reach` adds what `start` reaches to a set that is closed under children. -/
theorem mem_reach {children : Std.ExtTreeMap String (List String)} {start reachable : List String}
    (closed : ∀ v ∈ reachable, ∀ w ∈ childrenOf children v, w ∈ reachable) (y : String) :
    y ∈ reach children start reachable ↔
      y ∈ reachable ∨ ∃ x ∈ start, Reaches (childrenOf children) x y :=
  mem_walk Std.ExtTreeMap.nodup_keys (fun _ absent => childrenOf_not_mem absent)
    (Nat.add_le_add_left (edgesLeft_le (fun _ => le_rfl) _) _)
    (fun v member w edge => .inl (closed v member w edge)) y

theorem closed_reach {children : Std.ExtTreeMap String (List String)}
    {start reachable : List String}
    (closed : ∀ v ∈ reachable, ∀ w ∈ childrenOf children v, w ∈ reachable) :
    ∀ v ∈ reach children start reachable, ∀ w ∈ childrenOf children v,
      w ∈ reach children start reachable := by
  intro v member w edge
  rw [mem_reach closed] at member ⊢
  rcases member with old | ⟨x, started, reached⟩
  · exact .inl (closed v old w edge)
  · exact .inr ⟨x, started, reached.tail edge⟩

theorem mem_of_reaches {children : Std.ExtTreeMap String (List String)} {reachable : List String}
    (closed : ∀ v ∈ reachable, ∀ w ∈ childrenOf children v, w ∈ reachable) {x y : String}
    (member : x ∈ reachable) (reached : Reaches (childrenOf children) x y) : y ∈ reachable := by
  induction reached with
  | refl => exact member
  | tail _ edge inductionHypothesis => exact closed _ inductionHypothesis _ edge

/-- The second loop: an id in order becomes an entry point unless it is reached from what
came before. -/
theorem mem_foldl_addEntry {children : Std.ExtTreeMap String (List String)} {todo : List String}
    (ordered : todo.Pairwise (· < ·)) {roots reachable : List String}
    (closed : ∀ v ∈ reachable, ∀ w ∈ childrenOf children v, w ∈ reachable) (e : String) :
    e ∈ (todo.foldl (addEntry children) (roots, reachable)).1 ↔
      e ∈ roots ∨ (e ∈ todo ∧ e ∉ reachable ∧
        ∀ u ∈ todo, u < e → ¬ Reaches (childrenOf children) u e) := by
  -- on the ids in order, with what is reachable closed under the edges
  induction todo generalizing roots reachable with
  | nil => simp
  | cons id todo inductionHypothesis =>
    obtain ⟨least, orderedLater⟩ := List.pairwise_cons.mp ordered
    rw [List.foldl_cons, addEntry]
    dsimp only
    split
    · next known =>
      rw [inductionHypothesis orderedLater closed]
      refine or_congr_right ?_
      constructor
      · rintro ⟨member, fresh, alone⟩
        refine ⟨List.mem_cons_of_mem id member, fresh, fun u listed below reached => ?_⟩
        rcases List.mem_cons.mp listed with rfl | later
        · exact fresh (mem_of_reaches closed known reached)
        · exact alone u later below reached
      · rintro ⟨member, fresh, alone⟩
        refine ⟨(List.mem_cons.mp member).resolve_left (fun same => fresh (same ▸ known)), fresh,
          fun u listed below => alone u (List.mem_cons_of_mem id listed) below⟩
    · next unknown =>
      rw [inductionHypothesis orderedLater (closed_reach closed), List.mem_append,
        List.mem_singleton, mem_reach closed, or_assoc]
      refine or_congr_right ?_
      constructor
      · rintro (rfl | ⟨member, fresh, alone⟩)
        · refine ⟨List.mem_cons_self, unknown, fun u listed below => ?_⟩
          rcases List.mem_cons.mp listed with rfl | later
          · exact absurd below (lt_irrefl u)
          · exact absurd below (lt_asymm (least u later))
        · push Not at fresh
          refine ⟨List.mem_cons_of_mem id member, fresh.1, fun u listed below reached => ?_⟩
          rcases List.mem_cons.mp listed with rfl | later
          · exact fresh.2 u (List.mem_singleton_self u) reached
          · exact alone u later below reached
      · rintro ⟨member, fresh, alone⟩
        rcases List.mem_cons.mp member with rfl | later
        · exact .inl rfl
        · refine .inr ⟨later, ?_, fun u listed below => alone u (List.mem_cons_of_mem id listed) below⟩
          rintro (old | ⟨x, single, reached⟩)
          · exact fresh old
          · rw [List.mem_singleton.mp single] at reached
            exact alone id List.mem_cons_self (least e later) reached

theorem pairwise_lt_toList (present : Std.ExtTreeSet String) :
    present.toList.Pairwise (· < ·) := by
  have ordered : present.toList.Pairwise (fun a b => compare a b = .lt) :=
    Std.ExtTreeSet.ordered_toList
  exact ordered.imp (fun less => compare_lt_iff_lt.mp less)

/-- The roots of the tree are the entries. -/
theorem mem_roots_build {spans : List NormalizedSpan}
    (distinct : (spans.map NormalizedSpan.spanId).Nodup) {e : String} :
    e ∈ (SpanTree.build spans).roots ↔ e ∈ ids spans ∧ Entry (ParentOf spans) e := by
  -- the first walk starts at the roots, the second at what they do not reach
  have reachable_iff : ∀ y, y ∈ reach (placed spans).1 (placed spans).2 [] ↔
      ∃ r ∈ (placed spans).2, Relation.ReflTransGen (ParentOf spans) r y := by
    intro y
    rw [mem_reach (fun v member => absurd member List.not_mem_nil)]
    simp only [List.not_mem_nil, false_or, reaches_iff]
  have unreachable_iff : ∀ y, y ∈ (presentIds spans).toList.filter
      (· ∉ reach (placed spans).1 (placed spans).2 []) ↔
      y ∈ ids spans ∧ y ∉ reach (placed spans).1 (placed spans).2 [] := by
    intro y
    rw [List.mem_filter, Std.ExtTreeSet.mem_toList, mem_presentIds, ← mem_ids, decide_eq_true_eq]
  change e ∈ (((presentIds spans).toList.filter
    (· ∉ reach (placed spans).1 (placed spans).2 [])).foldl (addEntry (placed spans).1)
      ((placed spans).2, reach (placed spans).1 (placed spans).2 [])).1 ↔ _
  rw [mem_foldl_addEntry ((pairwise_lt_toList _).sublist List.filter_sublist)
    (closed_reach (fun v member => absurd member List.not_mem_nil))]
  simp only [unreachable_iff, reaches_iff, mem_placed_roots distinct]
  constructor
  · rintro (⟨member, isRoot⟩ | ⟨⟨member, -⟩, unreached, least⟩)
    · refine ⟨member, fun u above => ?_⟩
      obtain ⟨p, -, link⟩ := Relation.TransGen.tail'_iff.mp above
      exact absurd ⟨p, link⟩ isRoot
    -- an ancestor of an unreached span is unreached and reached by it
    · refine ⟨member, fun u above => ?_⟩
      obtain ⟨c, link, -⟩ := Relation.TransGen.head'_iff.mp above
      have uMember : u ∈ ids spans := link.within
      have uUnreached : u ∉ reach (placed spans).1 (placed spans).2 [] := by
        intro reached
        obtain ⟨r, root, below⟩ := (reachable_iff u).mp reached
        exact unreached ((reachable_iff e).mpr ⟨r, root, below.trans above.to_reflTransGen⟩)
      refine ⟨not_lt.mp (fun below => least u ⟨uMember, uUnreached⟩ below above.to_reflTransGen),
        fun isRoot => uUnreached ?_⟩
      exact (reachable_iff u).mpr ⟨u, (mem_placed_roots distinct).mpr ⟨uMember, isRoot⟩, .refl⟩
  · rintro ⟨member, entry⟩
    by_cases isRoot : IsRoot (ParentOf spans) e
    · exact .inl ⟨member, isRoot⟩
    · have unreached : e ∉ reach (placed spans).1 (placed spans).2 [] := by
        intro reached
        obtain ⟨r, root, below⟩ := (reachable_iff e).mp reached
        have rIsRoot := ((mem_placed_roots distinct).mp root).2
        rcases Relation.reflTransGen_iff_eq_or_transGen.mp below with same | above
        · exact isRoot (same ▸ rIsRoot)
        · exact (entry r above).2 rIsRoot
      refine .inr ⟨⟨member, unreached⟩, unreached, fun u _ smaller below => ?_⟩
      rcases Relation.reflTransGen_iff_eq_or_transGen.mp below with same | above
      · exact absurd (same ▸ smaller) (lt_irrefl _)
      · exact absurd smaller (not_lt.mpr (entry u above).1)

/-! ## The carriers found -/

/-- The search is the walk that does not expand a carrier. -/
theorem search_eq_walk (children : Std.ExtTreeMap String (List String))
    (carried : String → Option Score) (fuel : Nat) (queue visited : List String) :
    search children carried fuel queue visited
        (visited.filterMap (fun id => (carried id).map (id, ·))) =
      (walk (fun id => if (carried id).isSome then [] else childrenOf children id) fuel queue
        visited).filterMap (fun id => (carried id).map (id, ·)) := by
  induction fuel generalizing queue visited with
  | zero => rfl
  | succ fuel inductionHypothesis =>
    cases queue with
    | nil => rfl
    | cons id queue =>
      rw [search, walk]
      split
      · exact inductionHypothesis queue visited
      · cases found : carried id with
        | none =>
          rw [← inductionHypothesis, List.filterMap_append]
          simp [found]
        | some score =>
          rw [← inductionHypothesis, List.filterMap_append]
          simp [found]

/-- `q` is a span with a numeric score of `name`. -/
def Carries (scores : List Score) (name q : String) : Prop :=
  ∃ s ∈ scores, s.target = .span q ∧ s.name = name ∧ s.numValue.isSome = true ∧
    s.dataType ≠ .categorical ∧ s.dataType ≠ .text

theorem numericSpanScore_eq_some {score : Score} {e : String × Score} :
    numericSpanScore score = some e ↔ e.2 = score ∧ score.target = .span e.1 ∧
      score.numValue.isSome = true ∧ score.dataType ≠ .categorical ∧ score.dataType ≠ .text := by
  obtain ⟨id, s⟩ := e
  unfold numericSpanScore
  cases target : score.target with
  | span id' =>
    simp only [Bool.and_eq_true, Bool.not_eq_true', Bool.or_eq_false_iff, decide_eq_false_iff_not,
      Option.ite_none_right_eq_some, Option.some.injEq, Prod.mk.injEq, ScoreTarget.span.injEq]
    constructor
    · rintro ⟨usable, rfl, rfl⟩
      exact ⟨rfl, rfl, usable⟩
    · rintro ⟨rfl, rfl, usable⟩
      exact ⟨usable, rfl, rfl⟩
  | trace id' => simp
  | session id' => simp
  | run id' => simp

theorem getElem?_foldl_pushUnder (entries : List (String × Score)) (bySpan : BySpan)
    (q : String) :
    ((entries.foldl (fun m e => pushUnder m e.1 e.2) bySpan)[q]?).getD [] =
      (bySpan[q]?).getD [] ++ (entries.filter (fun e => e.1 = q)).map Prod.snd := by
  induction entries generalizing bySpan with
  | nil => simp
  | cons e entries inductionHypothesis =>
    rw [List.foldl_cons, inductionHypothesis, getElem?_pushUnder]
    by_cases here : e.1 = q
    · rw [if_pos here, List.filter_cons_of_pos (by simpa using here), Option.getD_some,
        List.map_cons, List.append_assoc, List.singleton_append]
    · rw [if_neg here, List.filter_cons_of_neg (by simpa using here)]

theorem carriedScore_indexBySpan (scores : List Score) (name q : String) :
    carriedScore (indexBySpan scores) name q =
      (((scores.filterMap numericSpanScore).filter (fun e => e.1 = q)).map Prod.snd).find?
        (fun s => s.name = name) := by
  have listed : ((indexBySpan scores)[q]?).getD [] =
      ((scores.filterMap numericSpanScore).filter (fun e => e.1 = q)).map Prod.snd := by
    rw [indexBySpan, getElem?_foldl_pushUnder]
    simp
  rw [← listed]
  unfold carriedScore
  cases (indexBySpan scores)[q]? <;> rfl

/-- The score a span carries, found in its list, is numeric, and is there exactly when the
span carries one. -/
theorem carriedScore_spec (scores : List Score) (name q : String) :
    (∀ score, carriedScore (indexBySpan scores) name q = some score →
      score.numValue.isSome = true ∧ score.name = name ∧ Carries scores name q) ∧
    (Carries scores name q → (carriedScore (indexBySpan scores) name q).isSome = true) := by
  rw [carriedScore_indexBySpan]
  constructor
  · intro score found
    have named := List.find?_some found
    obtain ⟨e, member, rfl⟩ := List.mem_map.mp (List.mem_of_find?_eq_some found)
    obtain ⟨kept, same⟩ := List.mem_filter.mp member
    obtain ⟨s, sMember, numeric⟩ := List.mem_filterMap.mp kept
    obtain ⟨rfl, target, value, notCategorical, notText⟩ := numericSpanScore_eq_some.mp numeric
    rw [of_decide_eq_true same] at target
    have nameIs := of_decide_eq_true named
    exact ⟨value, nameIs, e.2, sMember, target, nameIs, value, notCategorical, notText⟩
  · rintro ⟨s, member, target, named, value, notCategorical, notText⟩
    rw [List.find?_isSome]
    refine ⟨s, List.mem_map.mpr ⟨(q, s), List.mem_filter.mpr ⟨?_, by simp⟩, rfl⟩, by simpa⟩
    exact List.mem_filterMap.mpr ⟨s, member,
      numericSpanScore_eq_some.mpr ⟨rfl, target, value, notCategorical, notText⟩⟩

/-- The carriers found: those an entry reaches past no other carrier. -/
theorem mem_shallowestCarriers {spans : List NormalizedSpan}
    (distinct : (spans.map NormalizedSpan.spanId).Nodup) (scores : List Score) (name q : String) :
    q ∈ ((SpanTree.build spans).shallowestCarriers name (indexBySpan scores)).map Prod.fst ↔
      Contributor (ids spans) (ParentOf spans) (Carries scores name) q := by
  obtain ⟨-, carries⟩ := carriedScore_spec scores name q
  have isCarrier : ∀ x, (carriedScore (indexBySpan scores) name x).isSome = true ↔
      Carries scores name x := by
    intro x
    obtain ⟨found, isSome⟩ := carriedScore_spec scores name x
    refine ⟨fun given => ?_, isSome⟩
    obtain ⟨score, same⟩ := Option.isSome_iff_exists.mp given
    exact (found score same).2.2
  -- the search goes on below a span only where it carries no score
  have sameEdges : (fun a b => b ∈ (if (carriedScore (indexBySpan scores) name a).isSome then []
      else childrenOf (placed spans).1 a)) =
      fun a b => ¬ Carries scores name a ∧ ParentOf spans a b := by
    funext a b
    rw [← isCarrier a, ← mem_childrenOf]
    split
    · next stops => simp [stops]
    · next descends => simp [descends]
  have distinctKeys : (placed spans).1.keys.Nodup := Std.ExtTreeMap.nodup_keys
  have covers : ∀ x, x ∉ (placed spans).1.keys →
      (if (carriedScore (indexBySpan scores) name x).isSome then []
        else childrenOf (placed spans).1 x) = [] := by
    intro x absent
    rw [childrenOf_not_mem absent, ite_self]
  have fewer : ∀ x, (if (carriedScore (indexBySpan scores) name x).isSome then []
      else childrenOf (placed spans).1 x).length ≤ (childrenOf (placed spans).1 x).length := by
    intro x
    split
    · exact Nat.zero_le _
    · exact le_rfl
  have visited : ∀ x, x ∈ walk (fun id =>
        if (carriedScore (indexBySpan scores) name id).isSome then []
        else childrenOf (placed spans).1 id)
      ((SpanTree.build spans).roots.length + edgeCount (placed spans).1)
      (SpanTree.build spans).roots [] ↔
      ∃ e ∈ (SpanTree.build spans).roots, Shallow (ParentOf spans) (Carries scores name) e x := by
    intro x
    rw [mem_walk distinctKeys covers (Nat.add_le_add_left (edgesLeft_le fewer _) _)
      (fun v member => absurd member List.not_mem_nil), Reaches, sameEdges]
    simp only [List.not_mem_nil, false_or]
  -- the search collects the scores of what the walk visits
  have found := search_eq_walk (placed spans).1 (carriedScore (indexBySpan scores) name)
    ((SpanTree.build spans).roots.length + edgeCount (placed spans).1)
    (SpanTree.build spans).roots []
  change q ∈ (search (placed spans).1 (carriedScore (indexBySpan scores) name)
    ((SpanTree.build spans).roots.length + edgeCount (placed spans).1)
    (SpanTree.build spans).roots [] []).map Prod.fst ↔ _
  rw [List.filterMap_nil] at found
  rw [found, Contributor, List.mem_map]
  simp only [List.mem_filterMap, Option.map_eq_some_iff, visited, mem_roots_build distinct]
  constructor
  · rintro ⟨e, ⟨x, ⟨entry, ⟨member, isEntry⟩, shallow⟩, score, carried, rfl⟩, rfl⟩
    exact ⟨(isCarrier x).mp (Option.isSome_iff_exists.mpr ⟨score, carried⟩), entry, member, isEntry,
      shallow⟩
  · rintro ⟨carrier, entry, member, isEntry, shallow⟩
    obtain ⟨score, carried⟩ := Option.isSome_iff_exists.mp (carries carrier)
    exact ⟨(q, score), ⟨q, ⟨entry, ⟨member, isEntry⟩, shallow⟩, score, carried, rfl⟩, rfl⟩

/-! ## The rolled scores -/

/-- Some score of `name` is attached to the trace itself. -/
def Measured (traceId : String) (scores : List Score) (name : String) : Prop :=
  ∃ s ∈ scores, s.target = .trace traceId ∧ s.name = name ∧ s.numValue.isSome = true

/-- The span is combined into the rolled score of `name`. -/
def Contributes (rolled : List RolledScore) (name q : String) : Prop :=
  ∃ r ∈ rolled, r.name = name ∧ q ∈ r.contributingSpanIds

/-- A step of the measured loop: nothing, or the entry of a measured score's own name. -/
theorem measuredScore_cases (traceId : String) (out : Std.ExtTreeMap String RolledScore)
    (score : Score) :
    measuredScore traceId out score = out ∨
      ∃ r, measuredScore traceId out score = out.insert score.name r ∧ r.name = score.name ∧
        Measured traceId [score] score.name := by
  unfold measuredScore
  split
  · next id value target number =>
    split
    · next same =>
      refine .inr ⟨_, rfl, rfl, score, List.mem_singleton_self score, ?_, rfl, ?_⟩
      · rw [target, same]
      · rw [number]
        rfl
    · exact .inl rfl
  · exact .inl rfl

/-- Every entry is under its own name. -/
def Keyed (out : Std.ExtTreeMap String RolledScore) : Prop :=
  ∀ (k : String) (r : RolledScore), out[k]? = some r → r.name = k

theorem Keyed.insert {out : Std.ExtTreeMap String RolledScore} (keyed : Keyed out)
    (r : RolledScore) : Keyed (out.insert r.name r) := by
  intro k r' found
  rw [Std.ExtTreeMap.getElem?_insert] at found
  split at found
  · next same =>
    cases found
    exact Std.LawfulEqOrd.compare_eq_iff_eq.mp same
  · exact keyed k r' found

theorem measured_fold {traceId name : String} {scores : List Score}
    {out : Std.ExtTreeMap String RolledScore} (keyed : Keyed out)
    (unmeasured : ¬ Measured traceId scores name) :
    Keyed (scores.foldl (measuredScore traceId) out) ∧
      (scores.foldl (measuredScore traceId) out)[name]? = out[name]? := by
  induction scores generalizing out with
  | nil => exact ⟨keyed, rfl⟩
  | cons s scores inductionHypothesis =>
    have later : ¬ Measured traceId scores name := by
      rintro ⟨t, member, rest⟩
      exact unmeasured ⟨t, List.mem_cons_of_mem s member, rest⟩
    rw [List.foldl_cons]
    rcases measuredScore_cases traceId out s with same | ⟨r, inserted, own, isMeasured⟩
    · rw [same]
      exact inductionHypothesis keyed later
    · rw [inserted, ← own]
      obtain ⟨keyedAfter, entry⟩ := inductionHypothesis (keyed.insert r) later
      refine ⟨keyedAfter, entry.trans ?_⟩
      rw [Std.ExtTreeMap.getElem?_insert, if_neg]
      intro same
      rw [Std.LawfulEqOrd.compare_eq_iff_eq] at same
      obtain ⟨t, member, target, named, number⟩ := isMeasured
      exact unmeasured ⟨t, List.mem_cons.mpr (.inl (List.mem_singleton.mp member)), target,
        named.trans (own ▸ same), number⟩

theorem foldl_combineCarrier (carriers : List (String × Score))
    (numeric : ∀ c ∈ carriers, c.2.numValue.isSome = true) (values : List F64)
    (spanIds : List String) (seen : Option DataType) :
    carriers.foldl combineCarrier (values, spanIds, seen) =
      (values ++ carriers.filterMap (fun c => c.2.numValue), spanIds ++ carriers.map Prod.fst,
        carriers.foldl (fun seen c => joinType seen c.2.dataType) seen) := by
  induction carriers generalizing values spanIds seen with
  | nil => simp
  | cons c carriers inductionHypothesis =>
    obtain ⟨here, later⟩ := List.forall_mem_cons.mp numeric
    obtain ⟨v, number⟩ := Option.isSome_iff_exists.mp here
    have loop := inductionHypothesis later (values ++ [v]) (spanIds ++ [c.1])
      (joinType seen c.2.dataType)
    rw [List.foldl_cons, combineCarrier, number]
    dsimp only
    have first : v :: carriers.filterMap (fun c => c.2.numValue) =
        (c :: carriers).filterMap (fun c => c.2.numValue) := by
      rw [List.filterMap_cons, number]
    rw [loop, ← first, List.map_cons, List.append_assoc, List.append_assoc,
      List.singleton_append, List.singleton_append, List.foldl_cons]

theorem carrier_carried {tree : SpanTree} {name : String} {bySpan : BySpan} {c : String × Score}
    (found : c ∈ tree.shallowestCarriers name bySpan) :
    carriedScore bySpan name c.1 = some c.2 := by
  have walked := search_eq_walk tree.children (carriedScore bySpan name)
    (tree.roots.length + edgeCount tree.children) tree.roots []
  rw [List.filterMap_nil] at walked
  rw [SpanTree.shallowestCarriers, walked] at found
  obtain ⟨x, -, carried⟩ := List.mem_filterMap.mp found
  obtain ⟨score, same, rfl⟩ := Option.map_eq_some_iff.mp carried
  exact same

/-- A derived score names its carriers; there is none where nothing is carried. -/
theorem derivedScore_spec (float : FloatOps) (config : RollupConfig) (tree : SpanTree)
    (scores : List Score) (name : String) :
    (∀ r, derivedScore float config tree (indexBySpan scores) name = some r → r.name = name ∧
      r.contributingSpanIds =
        (tree.shallowestCarriers name (indexBySpan scores)).map Prod.fst) ∧
    (derivedScore float config tree (indexBySpan scores) name = none →
      tree.shallowestCarriers name (indexBySpan scores) = []) := by
  have numeric : ∀ c ∈ tree.shallowestCarriers name (indexBySpan scores),
      c.2.numValue.isSome = true := by
    intro c member
    exact ((carriedScore_spec scores name c.1).1 c.2 (carrier_carried member)).1
  have combined := foldl_combineCarrier _ numeric [] [] none
  unfold derivedScore
  dsimp only
  split
  · next empty =>
    rw [List.isEmpty_iff] at empty
    exact ⟨fun r impossible => (by cases impossible), fun _ => empty⟩
  · next nonempty =>
    rw [combined]
    dsimp only
    split
    -- a carrier has a number, so there is no derived score without one only if none carries
    · next noValue =>
      cases carriers : tree.shallowestCarriers name (indexBySpan scores) with
      | nil => simp [carriers] at nonempty
      | cons c rest =>
        obtain ⟨v, number⟩ := Option.isSome_iff_exists.mp
          (numeric c (carriers ▸ List.mem_cons_self))
        have hasValue : v ∈ (c :: rest).filterMap (fun c => c.2.numValue) :=
          List.mem_filterMap.mpr ⟨c, List.mem_cons_self, number⟩
        rw [carriers, List.nil_append, List.isEmpty_iff] at noValue
        rw [noValue] at hasValue
        cases hasValue
    · refine ⟨fun r same => ?_, fun impossible => (by cases impossible)⟩
      cases same
      exact ⟨rfl, List.nil_append _⟩

/-- The loop over the names: a name keeps its entry if it has one, and otherwise gets the
derived score. -/
theorem foldl_rollName (float : FloatOps) (config : RollupConfig) (tree : SpanTree)
    (scores : List Score) (names : List String) {out : Std.ExtTreeMap String RolledScore}
    (keyed : Keyed out) (name : String) (absent : out[name]? = none) :
    Keyed (names.foldl (rollName float config tree (indexBySpan scores)) out) ∧
      (names.foldl (rollName float config tree (indexBySpan scores)) out)[name]? =
        if name ∈ names then derivedScore float config tree (indexBySpan scores) name
        else none := by
  -- on the names from the last
  induction names using List.reverseRecOn with
  | nil => exact ⟨keyed, by simpa using absent⟩
  | append_singleton names next inductionHypothesis =>
    obtain ⟨keyedBefore, entry⟩ := inductionHypothesis
    obtain ⟨own, -⟩ := derivedScore_spec float config tree scores next
    rw [List.foldl_concat, rollName]
    simp only [List.mem_append, List.mem_singleton]
    split
    · next present =>
      refine ⟨keyedBefore, ?_⟩
      by_cases here : name = next
      · subst here
        rw [Std.ExtTreeMap.mem_iff_isSome_getElem?, entry] at present
        split at present
        · next listed => rw [entry, if_pos listed, if_pos (.inl listed)]
        · cases present
      · rw [entry]
        simp only [here, or_false]
    · next fresh =>
      split
      · next r derived =>
        have named : r.name = next := (own r derived).1
        refine ⟨named ▸ keyedBefore.insert r, ?_⟩
        rw [Std.ExtTreeMap.getElem?_insert]
        by_cases here : name = next
        · subst here
          rw [if_pos (Std.LawfulEqOrd.compare_eq_iff_eq.mpr rfl), if_pos (.inr rfl), derived]
        · rw [if_neg (fun same => here (Std.LawfulEqOrd.compare_eq_iff_eq.mp same).symm), entry]
          simp only [here, or_false]
      · next derived =>
        refine ⟨keyedBefore, ?_⟩
        by_cases here : name = next
        · subst here
          rw [Std.ExtTreeMap.getElem?_eq_none fresh, if_pos (.inr rfl), derived]
        · rw [entry]
          simp only [here, or_false]

theorem mem_scoredNames {bySpan : BySpan} {name : String} :
    name ∈ scoredNames bySpan ↔ ∃ e ∈ bySpan.toList, ∃ s ∈ e.2, s.name = name := by
  have folded : ∀ (scores : List Score) (names : Std.ExtTreeSet String),
      name ∈ scores.foldl (fun names s => names.insert s.name) names ↔
        (∃ s ∈ scores, s.name = name) ∨ name ∈ names := by
    intro scores
    induction scores with
    | nil => simp
    | cons s scores inductionHypothesis =>
      intro names
      rw [List.foldl_cons, inductionHypothesis, Std.ExtTreeSet.mem_insert,
        Std.LawfulEqOrd.compare_eq_iff_eq, List.exists_mem_cons_iff, or_assoc, or_left_comm]
  rw [scoredNames, Std.ExtTreeSet.mem_toList, folded]
  simp only [Std.ExtTreeSet.not_mem_empty, or_false, List.mem_flatMap]
  constructor
  · rintro ⟨s, ⟨e, listed, member⟩, named⟩
    exact ⟨e, listed, s, member, named⟩
  · rintro ⟨e, listed, s, member, named⟩
    exact ⟨s, ⟨e, listed, member⟩, named⟩

/-- A name some span carries is one of the names. -/
theorem mem_scoredNames_of_carriers {bySpan : BySpan} {name q : String}
    {score : Score} (carried : carriedScore bySpan name q = some score) :
    name ∈ scoredNames bySpan := by
  obtain ⟨spanScores, found, first⟩ := Option.bind_eq_some_iff.mp carried
  refine mem_scoredNames.mpr ⟨(q, spanScores), ?_, score, List.mem_of_find?_eq_some first, ?_⟩
  · exact Std.ExtTreeMap.mem_toList_iff_getElem?_eq_some.mpr found
  · have named := List.find?_some first
    exact of_decide_eq_true named

/-- The contributors of a name with no measured score are the carriers the walk finds. -/
theorem contributes_iff (float : FloatOps) {traceId name : String} {spans : List NormalizedSpan}
    {scores : List Score} (config : RollupConfig)
    (distinct : (spans.map NormalizedSpan.spanId).Nodup)
    (unmeasured : ¬ Measured traceId scores name) (q : String) :
    Contributes (rollupTrace float traceId spans scores config) name q ↔
      Contributor (ids spans) (ParentOf spans) (Carries scores name) q := by
  have empty : Keyed ∅ := fun k r found => by simp at found
  have nothing : (∅ : Std.ExtTreeMap String RolledScore)[name]? = none := by simp
  obtain ⟨keyed, noEntry⟩ := measured_fold empty unmeasured
  have folded : rollup float traceId spans scores config =
      (scoredNames (indexBySpan scores)).foldl
        (rollName float config (SpanTree.build spans) (indexBySpan scores))
        (scores.foldl (measuredScore traceId) ∅) := by
    unfold rollup
    dsimp only
    split
    · next none =>
      have noName : scoredNames ∅ = [] := by decide
      rw [Std.ExtTreeMap.isEmpty_iff.mp none, noName, List.foldl_nil]
    · rfl
  obtain ⟨keyedAll, entry⟩ := foldl_rollName float config (SpanTree.build spans) scores
    (scoredNames (indexBySpan scores)) keyed name (noEntry.trans nothing)
  rw [← folded] at keyedAll entry
  -- the report lists each entry under its own name
  have byName : Contributes (rollupTrace float traceId spans scores config) name q ↔
      ∃ r, (rollup float traceId spans scores config)[name]? = some r ∧
        q ∈ r.contributingSpanIds := by
    constructor
    · rintro ⟨r, listed, rfl, member⟩
      obtain ⟨⟨k, r⟩, pair, rfl⟩ := List.mem_map.mp listed
      have found := Std.ExtTreeMap.mem_toList_iff_getElem?_eq_some.mp pair
      exact ⟨r, by rw [keyedAll k r found]; exact found, member⟩
    · rintro ⟨r, found, member⟩
      exact ⟨r, List.mem_map.mpr ⟨(name, r),
        Std.ExtTreeMap.mem_toList_iff_getElem?_eq_some.mpr found, rfl⟩, keyedAll name r found, member⟩
  obtain ⟨derives, carriesNone⟩ := derivedScore_spec float config (SpanTree.build spans) scores name
  rw [byName, entry, ← mem_shallowestCarriers distinct]
  constructor
  · rintro ⟨r, found, member⟩
    split at found
    · rw [(derives r found).2] at member
      exact member
    · cases found
  · intro member
    -- a name that is carried is a scored name, so the loop meets it
    have carrier := ((mem_shallowestCarriers distinct scores name q).mp member).1
    obtain ⟨score, carried⟩ := Option.isSome_iff_exists.mp
      ((carriedScore_spec scores name q).2 carrier)
    rw [if_pos (mem_scoredNames_of_carriers carried)]
    cases derived : derivedScore float config (SpanTree.build spans) (indexBySpan scores) name with
    | none =>
      rw [carriesNone derived] at member
      cases member
    | some r => exact ⟨r, rfl, (derives r derived).2 ▸ member⟩

/-! ## Neither lost nor counted twice -/

/-- A carrier with no carrier among its other ancestors is combined, and any other carrier
has a combined one among its ancestors. -/
def NothingLost (spans : List NormalizedSpan) (scores : List Score) (name : String)
    (rolled : List RolledScore) : Prop :=
  ∀ q ∈ ids spans, Carries scores name q →
    ((∀ c, Carries scores name c → Above (ParentOf spans) c q → c = q) →
      Contributes rolled name q) ∧
    ((∃ c, Carries scores name c ∧ Above (ParentOf spans) c q ∧ c ≠ q) →
      ∃ x, Contributes rolled name x ∧ Above (ParentOf spans) x q)

/-- No combined span is above another one, unless the two are on one cycle. -/
def NothingTwice (spans : List NormalizedSpan) (name : String) (rolled : List RolledScore) :
    Prop :=
  ∀ x y, Contributes rolled name x → Contributes rolled name y → x ≠ y →
    Above (ParentOf spans) x y → Above (ParentOf spans) y x

/-- No scored span is lost; and no subtree counts twice exactly when no carrier is
undercut: reached from an entry past no carrier, with a carrier above that entry. -/
theorem rollupTrace_covers (float : FloatOps) (traceId : String) {spans : List NormalizedSpan}
    (scores : List Score) (config : RollupConfig) (name : String)
    (distinct : (spans.map NormalizedSpan.spanId).Nodup)
    (unmeasured : ¬ Measured traceId scores name) :
    NothingLost spans scores name (rollupTrace float traceId spans scores config) ∧
      (NothingTwice spans name (rollupTrace float traceId spans scores config) ↔
        ¬ Undercut (ids spans) (ParentOf spans) (Carries scores name)) := by
  have contributes := contributes_iff float config distinct unmeasured
  have within : ∀ p c, ParentOf spans p c → p ∈ ids spans := fun p c link => link.within
  constructor
  · intro q member carries
    refine ⟨fun alone => ?_, ?_⟩
    · exact (contributes q).mpr (contributor_of_alone within member carries alone)
    · rintro ⟨c, carriesAbove, above, -⟩
      obtain ⟨x, contributor, aboveQ⟩ := exists_contributor_above within carriesAbove above
      exact ⟨x, (contributes x).mpr contributor, aboveQ⟩
  · rw [← apart_iff_not_undercut within (fun p q c => ParentOf.unique distinct)]
    simp only [NothingTwice, contributes]

/-- `b` hangs below the cycle of `x` and `y`, and its id is the smallest of the three. -/
def hangingSpans : List NormalizedSpan :=
  [{ traceId := "t", spanId := "x", parentSpanId := some "y", startUnixNano := 0 },
    { traceId := "t", spanId := "y", parentSpanId := some "x", startUnixNano := 0 },
    { traceId := "t", spanId := "b", parentSpanId := some "x", startUnixNano := 0 }]

def spanScore (q : String) : Score :=
  { id := q, target := .span q, name := "q", numValue := some (.finite 1) }

/-- Exact arithmetic on finite values. -/
def exactOps : FloatOps where
  add a b := match a, b with | .finite x, .finite y => .finite (x + y) | _, _ => .nan
  div a b := match a, b with | .finite x, .finite y => .finite (x / y) | _, _ => .nan
  min a b := match a, b with | .finite x, .finite y => .finite (x ⊓ y) | _, _ => a
  max a b := match a, b with | .finite x, .finite y => .finite (x ⊔ y) | _, _ => a
  ofNat n := .finite n

theorem rollupTrace_covers_hanging :
    NothingLost hangingSpans [spanScore "x", spanScore "b"] "q"
        (rollupTrace exactOps "t" hangingSpans [spanScore "x", spanScore "b"] {}) ∧
      (NothingTwice hangingSpans "q"
          (rollupTrace exactOps "t" hangingSpans [spanScore "x", spanScore "b"] {}) ↔
        ¬ Undercut (ids hangingSpans) (ParentOf hangingSpans)
          (Carries [spanScore "x", spanScore "b"] "q")) := by
  refine rollupTrace_covers exactOps "t" _ {} "q" (by decide) ?_
  rintro ⟨s, member, target, -⟩
  rcases List.mem_cons.mp member with rfl | later
  · cases target
  · rw [List.mem_singleton.mp later] at target
    cases target

/-- The walk enters the component at `b`, whose score is combined, and then at `x`, whose
score is about `b` too. -/
theorem rollupTrace_counts_twice :
    ¬ NothingTwice hangingSpans "q"
      (rollupTrace exactOps "t" hangingSpans [spanScore "x", spanScore "b"] {}) := by
  have combined : (rollupTrace exactOps "t" hangingSpans [spanScore "x", spanScore "b"] {}).map
      (fun r => (r.name, r.contributingSpanIds)) = [("q", ["b", "x"])] := by decide
  obtain ⟨r, listed, names⟩ := List.mem_map.mp (combined ▸ List.mem_singleton_self ("q", ["b", "x"]))
  rw [Prod.mk.injEq] at names
  have contributes : ∀ q ∈ ["b", "x"], Contributes
      (rollupTrace exactOps "t" hangingSpans [spanScore "x", spanScore "b"] {}) "q" q :=
    fun q member => ⟨r, listed, names.1, names.2 ▸ member⟩
  have link : ParentOf hangingSpans "x" "b" :=
    ⟨{ traceId := "t", spanId := "b", parentSpanId := some "x", startUnixNano := 0 },
      by simp [hangingSpans], rfl, by decide⟩
  have noChild : ∀ c, ¬ ParentOf hangingSpans "b" c := by
    intro c ⟨s, member, _, parent⟩
    have pointer : s.parentSpanId = some "b" := (presentParent_eq_some.mp parent).1
    simp only [hangingSpans, List.mem_cons, List.not_mem_nil, or_false] at member
    rcases member with rfl | rfl | rfl <;> simp at pointer
  intro twice
  have below := twice "x" "b" (contributes "x" (by simp)) (contributes "b" (by simp)) (by decide)
    (.single link)
  obtain ⟨c, fromB, -⟩ := Relation.TransGen.head'_iff.mp below
  exact noChild c fromB

end Evald.Rollup
