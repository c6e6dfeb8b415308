import Evald.Lib.Recency
import Evald.Lib.Run
import Evald.Logs.Recall

/-! # Which sessions are forgotten

A node remembers the sessions that entered its memory last, however the requests that update
them are interleaved.  An update of a session that is remembered does not move it back in the
order, so what is remembered are the sessions seen most recently only as long as the session
pushed out is also the one updated longest ago (`recall_remembers`).
-/

namespace Evald.Logs

open Evald.Lib

inductive RecallOp (R T : Type) where
  | get (request : R) (session : String)
  | update (request : R) (session : String) (f : T → T)

/-- The layers of the requests and of the node, and what the updates of named sessions left,
the newest first. -/
structure Recollection (R T : Type) where
  locals : R → Local T
  recent : Recall T
  history : List (String × T)

variable {R T : Type}

/-- The sessions that were updated, the newest first. -/
def Recollection.updated (node : Recollection R T) : List String := node.history.map Prod.fst

section Steps

variable [DecidableEq R] [Inhabited T]

/-- A read changes nothing. -/
def Recollection.step (node : Recollection R T) : RecallOp R T → Recollection R T
  | .get _ _ => node
  | .update request session f =>
    let (loc, recent) := node.recent.update (node.locals request) session f
    { locals := Function.update node.locals request loc
      recent := recent
      history :=
        if session = "" then node.history
        else (session, loc.getD session default) :: node.history }

/-- Before the first request. -/
def Recollection.start : Recollection R T :=
  { locals := fun _ => ∅
    recent := {}
    history := [] }

def Recollection.run (ops : List (RecallOp R T)) : Recollection R T :=
  ops.foldl Recollection.step .start

end Steps

/-- The map and the order hold the same sessions, each once, and no more than the capacity. -/
structure Recall.Aligned (recent : Recall T) : Prop where
  keys : ∀ session, session ∈ recent.order ↔ session ∈ recent.map
  once : recent.order.Nodup
  size : recent.map.size = recent.order.length
  fits : recent.order.length ≤ recallCapacity

/-- Every updated session is remembered in later requests, with what its last update left, if
fewer others than the capacity were updated since. -/
def Recollection.Remembers (node : Recollection R T) : Prop :=
  ∀ session value, node.history.lookup session = some value →
    (since node.updated session).toFinset.card < recallCapacity →
      node.recent.get ∅ session = some value

/-- Where the update pushes a session out, every other remembered session was updated since. -/
def Recollection.PushesOutStalest (node : Recollection R T) : RecallOp R T → Prop
  | .get _ _ => True
  | .update _ session _ =>
    session ≠ "" → DropsStalest recallCapacity node.updated node.recent.order session

/-! ## One update -/

theorem forgetOldest_of_le {map : Std.ExtTreeMap String T} {order : List String}
    (fits : order.length ≤ recallCapacity) :
    forgetOldest map order = { map := map, order := order } := by
  cases order with
  | nil => rfl
  | cons old rest => rw [forgetOldest, if_neg (Nat.not_lt.mpr fits)]

/-- What is remembered after an update, by session. -/
structure Recall.Remembered (recent : Recall T) (session : String) (value : T)
    (recent' : Recall T) : Prop where
  order : recent'.order = enqueue recallCapacity recent.order session
  map : ∀ key, recent'.map[key]? =
    if key ∈ recent'.order then (if key = session then some value else recent.map[key]?) else none

theorem Recall.remember_spec {recent : Recall T} (keys : ∀ s, s ∈ recent.order ↔ s ∈ recent.map)
    (once : recent.order.Nodup) (fits : recent.order.length ≤ recallCapacity) (session : String)
    (value : T) : recent.Remembered session value (recent.remember session value) := by
  have absentOf (key : String) (absent : key ∉ recent.order) : recent.map[key]? = none := by
    rw [keys] at absent
    exact Std.ExtTreeMap.getElem?_eq_none absent
  have inserted (key : String) : (recent.map.insert session value)[key]? =
      if key = session then some value else recent.map[key]? :=
    getElem?_insert_if recent.map session key value
  -- a session that is held keeps its place in the queue
  by_cases held : session ∈ recent.order
  · have contained : recent.map.contains session = true :=
      Std.ExtTreeMap.mem_iff_contains.mp ((keys session).mp held)
    rw [Recall.remember, if_pos contained]
    refine ⟨(if_pos held).symm, fun key => ?_⟩
    rw [inserted]
    by_cases same : key = session
    · rw [if_pos same, if_pos (same ▸ held)]
    · rw [if_neg same]
      split
      · rfl
      · next absent => exact absentOf key absent
  · have notContained : ¬ recent.map.contains session = true := fun contained =>
      held ((keys session).mpr (Std.ExtTreeMap.mem_iff_contains.mpr contained))
    rw [Recall.remember, if_neg notContained]
    by_cases room : recent.order.length < recallCapacity
    · rw [forgetOldest_of_le (by rw [List.length_append]; exact room)]
      refine ⟨by rw [enqueue, if_neg held, if_pos room], fun key => ?_⟩
      rw [inserted]
      by_cases same : key = session
      · rw [if_pos same, if_pos (by simp [same])]
      · rw [if_neg same]
        split
        · rfl
        · next absent => exact absentOf key (fun inside => absent (List.mem_append_left _ inside))
    · -- the oldest goes
      obtain ⟨old, rest, isOrder⟩ := List.exists_cons_of_length_pos
        (Nat.lt_of_lt_of_le (by decide) (Nat.le_of_not_lt room))
      have short : (rest ++ [session]).length ≤ recallCapacity := by
        rw [isOrder, List.length_cons] at fits
        rwa [List.length_append]
      have tooMany : recallCapacity < (old :: (rest ++ [session])).length := by
        rw [isOrder, List.length_cons] at room
        rw [List.length_cons, List.length_append, List.length_singleton]
        omega
      have moved : enqueue recallCapacity recent.order session = rest ++ [session] := by
        rw [enqueue, if_neg held, if_neg room, isOrder, List.tail_cons]
      rw [isOrder, List.cons_append, forgetOldest, if_pos tooMany, forgetOldest_of_le short]
      refine ⟨moved.symm, fun key => ?_⟩
      rw [isOrder, List.nodup_cons] at once
      show ((recent.map.insert session value).erase old)[key]? = _
      rw [Std.ExtTreeMap.getElem?_erase, inserted]
      simp only [Std.LawfulEqOrd.compare_eq_iff_eq, List.mem_append, List.mem_singleton]
      by_cases same : key = session
      · have notOld : ¬ old = key := fun gone => held (by simp [isOrder, ← same, gone])
        rw [if_neg notOld, if_pos same, if_pos (Or.inr same)]
      · by_cases gone : old = key
        · have absent : ¬ (key ∈ rest ∨ key = session) := by
            rw [← gone] at same ⊢
            exact not_or.mpr ⟨once.1, same⟩
          rw [if_pos gone, if_neg absent]
        · rw [if_neg gone, if_neg same]
          split
          · rfl
          · next absent =>
            refine absentOf key (fun inside => ?_)
            rw [isOrder, List.mem_cons] at inside
            exact inside.elim (Ne.symm gone) (fun inside => absent (.inl inside))

theorem Recall.aligned_of {recent : Recall T}
    (keys : ∀ session, session ∈ recent.order ↔ session ∈ recent.map)
    (bounded : Bounded recallCapacity recent.order) : recent.Aligned where
  keys := keys
  once := bounded.nodup
  size := by
    have perm : recent.map.keys.Perm recent.order := by
      rw [List.perm_ext_iff_of_nodup Std.ExtTreeMap.nodup_keys bounded.nodup]
      intro session
      rw [Std.ExtTreeMap.mem_keys, keys]
    rw [← perm.length_eq, Std.ExtTreeMap.length_keys]
  fits := bounded.fits

/-- An update keeps the map and the order aligned. -/
theorem Recall.Aligned.remember {recent : Recall T} (aligned : recent.Aligned) (session : String)
    (value : T) : (recent.remember session value).Aligned := by
  have spec := recent.remember_spec aligned.keys aligned.once aligned.fits session value
  refine Recall.aligned_of (fun key => ?_) ?_
  · rw [Std.ExtTreeMap.mem_iff_isSome_getElem?, spec.map]
    constructor
    · intro inside
      rw [if_pos inside]
      split
      · rfl
      · next other =>
        rw [spec.order] at inside
        have held := (of_mem_enqueue inside).resolve_right other
        rwa [← Std.ExtTreeMap.mem_iff_isSome_getElem?, ← aligned.keys]
    · intro nonblank
      by_contra absent
      rw [if_neg absent] at nonblank
      cases nonblank
  · rw [spec.order]
    exact Bounded.enqueue ⟨aligned.once, aligned.fits⟩ (by decide) session

/-! ## A run -/

/-- What holds in every run: the node's layer is aligned, and its values are the latest. -/
structure Recollection.Sound (node : Recollection R T) : Prop where
  aligned : node.recent.Aligned
  named : "" ∉ node.updated
  values : ∀ session ∈ node.recent.order,
    node.recent.map[session]? = node.history.lookup session

theorem Recollection.sound_start : (.start : Recollection R T).Sound where
  aligned := Recall.aligned_of (by simp [Recollection.start])
    ⟨List.nodup_nil, Nat.zero_le _⟩
  named inside := by cases inside
  values _ inside := by cases inside

theorem mem_updated_iff {node : Recollection R T} {session : String} :
    session ∈ node.updated ↔ ∃ value, node.history.lookup session = some value := by
  rw [← Option.isSome_iff_exists, List.lookup_isSome_iff, Recollection.updated, List.mem_map]
  constructor
  · intro ⟨entry, inside, same⟩
    exact ⟨entry, inside, beq_iff_eq.mpr same.symm⟩
  · intro ⟨entry, inside, same⟩
    exact ⟨entry, inside, (beq_iff_eq.mp same).symm⟩

/-- What is remembered are the sessions seen most recently. -/
theorem Recollection.Sound.remembers_iff {node : Recollection R T} (sound : node.Sound) :
    node.Remembers ↔ Recent recallCapacity node.updated node.recent.order := by
  have got (session : String) (nonblank : session ≠ "") :
      node.recent.get ∅ session = node.recent.map[session]? := by
    simp [Recall.get, nonblank]
  constructor
  · intro remembers session known few
    obtain ⟨value, latest⟩ := mem_updated_iff.mp known
    have kept := remembers session value latest few
    rw [got session (fun empty => sound.named (empty ▸ known))] at kept
    rw [sound.aligned.keys, Std.ExtTreeMap.mem_iff_isSome_getElem?, kept]
    rfl
  · intro recent session value latest few
    have known := mem_updated_iff.mpr ⟨value, latest⟩
    have held := recent session known few
    rw [got session (fun empty => sound.named (empty ▸ known)), sound.values session held, latest]

section Runs

variable [DecidableEq R] [Inhabited T]

/-- An update of a named session: what it leaves is remembered and goes into the history. -/
theorem Recollection.step_update (node : Recollection R T) (request : R) {session : String}
    (f : T → T) (named : session ≠ "") : ∃ value,
      (node.step (.update request session f)).recent = node.recent.remember session value ∧
      (node.step (.update request session f)).history = (session, value) :: node.history := by
  refine ⟨f ((node.recent.get (node.locals request) session).getD default), ?_, ?_⟩
  · unfold Recollection.step
    simp only [Recall.update_of_named _ _ f named]
  · unfold Recollection.step
    simp only [Recall.update_of_named _ _ f named, if_neg named, Std.ExtTreeMap.getD_insert_self]

/-- A read, and an update without a session, leave the node's layer alone. -/
theorem Recollection.step_other (node : Recollection R T) (op : RecallOp R T)
    (other : ∀ request session f, op = .update request session f → session = "") :
    (node.step op).recent = node.recent ∧ (node.step op).history = node.history := by
  cases op with
  | get request session => exact ⟨rfl, rfl⟩
  | update request session f =>
    have empty := other request session f rfl
    subst empty
    exact ⟨rfl, rfl⟩

theorem Recollection.Sound.step {node : Recollection R T} (sound : node.Sound)
    (op : RecallOp R T) : (node.step op).Sound := by
  by_cases named : ∃ request session f, op = .update request session f ∧ session ≠ ""
  · obtain ⟨request, session, f, rfl, named⟩ := named
    obtain ⟨value, recent, history⟩ := node.step_update request f named
    have spec := node.recent.remember_spec sound.aligned.keys sound.aligned.once
      sound.aligned.fits session value
    refine ⟨by rw [recent]; exact sound.aligned.remember session value, ?_, fun key inside => ?_⟩
    · rw [Recollection.updated, history, List.map_cons, List.mem_cons, not_or]
      exact ⟨Ne.symm named, sound.named⟩
    rw [recent] at inside ⊢
    rw [history, spec.map, if_pos inside, List.lookup_cons]
    by_cases same : key = session
    · simp [same]
    · have differ : (key == session) = false := by simpa using same
      rw [if_neg same, differ]
      rw [spec.order] at inside
      exact sound.values key ((of_mem_enqueue inside).resolve_right same)
  · obtain ⟨recent, history⟩ := node.step_other op (by
      intro request session f isUpdate
      by_contra nonblank
      exact named ⟨request, session, f, isUpdate, nonblank⟩)
    refine ⟨by rw [recent]; exact sound.aligned, ?_, ?_⟩
    · rw [Recollection.updated, history]
      exact sound.named
    · rw [recent, history]
      exact sound.values

theorem Recollection.sound_run (ops : List (RecallOp R T)) : (Recollection.run ops).Sound := by
  induction ops using List.reverseRecOn with
  | nil => exact Recollection.sound_start
  | append_singleton ops op inductionHypothesis =>
    rw [Recollection.run, List.foldl_append]
    exact inductionHypothesis.step op

/-- The queue of a node. -/
def Recollection.Latest (node : Recollection R T) : Prop :=
  Lib.Latest recallCapacity node.updated node.recent.order

/-- One step, seen as a step of the queue: a session is taken in, or nothing changes. -/
theorem Recollection.Sound.queue_step {node : Recollection R T} (sound : node.Sound)
    (op : RecallOp R T) :
    ((node.step op).updated = node.updated ∧ (node.step op).recent.order = node.recent.order ∧
      node.PushesOutStalest op) ∨
    ∃ session, (node.step op).updated = session :: node.updated ∧
      (node.step op).recent.order = enqueue recallCapacity node.recent.order session ∧
      (node.PushesOutStalest op ↔
        DropsStalest recallCapacity node.updated node.recent.order session) := by
  by_cases named : ∃ request session f, op = .update request session f ∧ session ≠ ""
  · right
    obtain ⟨request, session, f, rfl, named⟩ := named
    obtain ⟨value, recent, history⟩ := node.step_update request f named
    have spec := node.recent.remember_spec sound.aligned.keys sound.aligned.once
      sound.aligned.fits session value
    refine ⟨session, ?_, by rw [recent]; exact spec.order, ?_⟩
    · rw [Recollection.updated, history]
      rfl
    · exact ⟨fun stalest => stalest named, fun stalest _ => stalest⟩
  · left
    have other : ∀ request session f, op = .update request session f → session = "" := by
      intro request session f isUpdate
      by_contra nonblank
      exact named ⟨request, session, f, isUpdate, nonblank⟩
    obtain ⟨recent, history⟩ := node.step_other op other
    refine ⟨by rw [Recollection.updated, history]; rfl, by rw [recent], ?_⟩
    cases op with
    | get request session => trivial
    | update request session f => exact fun nonblank => absurd (other request session f rfl) nonblank

theorem Recollection.Latest.step {node : Recollection R T} (sound : node.Sound)
    (latest : node.Latest) {op : RecallOp R T} (stalest : node.PushesOutStalest op) :
    (node.step op).Latest := by
  unfold Recollection.Latest
  obtain ⟨updated, order, -⟩ | ⟨session, updated, order, pushes⟩ := sound.queue_step op
  · rw [updated, order]
    exact latest
  · rw [updated, order]
    exact Lib.Latest.step (by decide) latest (pushes.mp stalest)

theorem Recollection.Latest.pushesOutStalest {node : Recollection R T} (sound : node.Sound)
    (latest : node.Latest) {op : RecallOp R T} (remembers : (node.step op).Remembers) :
    node.PushesOutStalest op := by
  obtain ⟨-, -, stalest⟩ | ⟨session, updated, order, pushes⟩ := sound.queue_step op
  · exact stalest
  · rw [(sound.step op).remembers_iff, updated, order] at remembers
    exact pushes.mpr ((Lib.Latest.recent_step_iff (by decide) latest).mp remembers)

theorem Recollection.run_append (ops : List (RecallOp R T)) (op : RecallOp R T) :
    Recollection.run (ops ++ [op]) = (Recollection.run ops).step op := by
  rw [Recollection.run, List.foldl_append]
  rfl

/-- While every session pushed out is the stalest, the queue holds the latest sessions. -/
theorem Recollection.latest_run {ops : List (RecallOp R T)}
    (stalest : StepsMeet (fun front op => (Recollection.run front).PushesOutStalest op) ops) :
    (Recollection.run ops).Latest := by
  induction ops using List.reverseRecOn with
  | nil => exact latest_nil
  | append_singleton ops op inductionHypothesis =>
    rw [Recollection.run_append]
    refine (inductionHypothesis (fun front op' early => ?_)).step (Recollection.sound_run ops)
      (stalest ops op List.prefix_rfl)
    exact stalest front op' (early.trans (List.prefix_append _ _))

/-- In every run the map and the order are aligned, and the sessions seen most recently are
remembered in every state reached exactly when every session pushed out is the stalest. -/
theorem recall_remembers (ops : List (RecallOp R T)) :
    (∀ front, front <+: ops → (Recollection.run front).recent.Aligned) ∧
    ((∀ front, front <+: ops → (Recollection.run front).Remembers) ↔
      ∀ front op, front ++ [op] <+: ops → (Recollection.run front).PushesOutStalest op) := by
  refine ⟨fun front _ => (Recollection.sound_run front).aligned, ?_⟩
  refine forall_prefix_iff (fun front stalest => ?_) (fun front op stalest remembers => ?_) ops
  · rw [(Recollection.sound_run front).remembers_iff]
    exact (Recollection.latest_run stalest).recent
  · rw [Recollection.run_append] at remembers
    exact (Recollection.latest_run stalest).pushesOutStalest (Recollection.sound_run front)
      remembers

end Runs

/-! ## A session that is always updated -/

/-- An update of a session in a request of its own. -/
def touch (session : String) : RecallOp String Unit := .update session session id

/-- Sessions that come and go. -/
def shortSession (i : Nat) : String := String.ofList ('s' :: List.replicate i 'x')

theorem shortSession_inj {i j : Nat} (same : shortSession i = shortSession j) : i = j := by
  have lengths := congrArg List.length (String.ofList_injective same)
  simpa using lengths

def others : List String := (List.range 4095).map shortSession

/-- A touch of a session, as a step of the queue. -/
theorem touch_step (ops : List (RecallOp String Unit)) {session : String} (named : session ≠ "") :
    (Recollection.run (ops ++ [touch session])).recent.order =
        enqueue recallCapacity (Recollection.run ops).recent.order session ∧
      (Recollection.run (ops ++ [touch session])).updated =
        session :: (Recollection.run ops).updated := by
  have sound := Recollection.sound_run ops
  obtain ⟨value, recent, history⟩ := (Recollection.run ops).step_update session id named
  have spec := Recall.remember_spec sound.aligned.keys sound.aligned.once sound.aligned.fits
    session value
  rw [Recollection.run_append]
  constructor
  · rw [← spec.order, ← recent]
    rfl
  · rw [Recollection.updated, touch, history]
    rfl

/-- Distinct sessions, as many as there is room for, are remembered in their order. -/
theorem run_touch {sessions : List String} (distinct : sessions.Nodup) (named : "" ∉ sessions)
    (fits : sessions.length ≤ recallCapacity) :
    (Recollection.run (sessions.map touch)).recent.order = sessions ∧
      (Recollection.run (sessions.map touch)).updated = sessions.reverse := by
  induction sessions using List.reverseRecOn with
  | nil => exact ⟨rfl, rfl⟩
  | append_singleton sessions session inductionHypothesis =>
    rw [List.length_append, List.length_singleton] at fits
    rw [List.nodup_append_comm, List.singleton_append, List.nodup_cons] at distinct
    rw [List.mem_append, not_or, List.mem_singleton] at named
    obtain ⟨order, updated⟩ := inductionHypothesis distinct.2 named.1 (by omega)
    obtain ⟨order', updated'⟩ := touch_step (sessions.map touch) (Ne.symm named.2)
    rw [List.map_append, List.map_singleton, order', updated', order, updated, enqueue,
      if_neg distinct.1, if_pos (by omega), List.reverse_append]
    exact ⟨rfl, rfl⟩

theorem not_mem_others {session : String} (first : session.toList.head? ≠ some 's') :
    session ∉ others := by
  intro inside
  obtain ⟨i, -, same⟩ := List.mem_map.mp inside
  rw [← same, shortSession, String.toList_ofList] at first
  exact first rfl

theorem nodup_long : ("long" :: others).Nodup := by
  rw [List.nodup_cons]
  exact ⟨not_mem_others (by decide),
    List.nodup_range.map (fun i j same => shortSession_inj same)⟩

/-- The session updated just before the last is forgotten with it: it came first. -/
theorem long_forgotten :
    ¬ (Recollection.run
      (("long" :: others).map touch ++ [touch "long"] ++ [touch "last"])).Remembers := by
  have length : ("long" :: others).length = recallCapacity := by simp [others, recallCapacity]
  have named : "" ∉ "long" :: others :=
    List.not_mem_cons_of_ne_of_not_mem (by decide) (not_mem_others (by decide))
  obtain ⟨order, updated⟩ := run_touch nodup_long named (Nat.le_of_eq length)
  obtain ⟨order', updated'⟩ := touch_step (("long" :: others).map touch)
    (show "long" ≠ "" by decide)
  rw [order, enqueue, if_pos List.mem_cons_self] at order'
  rw [updated] at updated'
  have members (s : String) : s ∈ (Recollection.run
      (("long" :: others).map touch ++ [touch "long"])).updated ↔ s ∈ "long" :: others := by
    rw [updated', List.mem_cons, List.mem_reverse, List.mem_cons]
    exact ⟨fun h => h.elim .inl id, .inr⟩
  -- up to the last step the most recent ones are those that are held
  have latest : (Recollection.run (("long" :: others).map touch ++ [touch "long"])).Latest := by
    refine ⟨⟨by rw [order']; exact nodup_long, by rw [order', length]⟩, ?_, ?_, ?_⟩
    · intro s inside
      rw [members, ← order']
      exact inside
    · intro s _ u after
      rw [order', ← members]
      exact mem_of_mem_since after
    · intro _ s known
      rw [order', ← members]
      exact known
  intro remembers
  rw [Recollection.run_append] at remembers
  have stalest := latest.pushesOutStalest (Recollection.sound_run _) remembers (by decide)
  rw [order', updated'] at stalest
  -- the queue is full, and "long" was its first though it came back
  have new : "last" ∉ "long" :: others :=
    List.not_mem_cons_of_ne_of_not_mem (by decide) (not_mem_others (by decide))
  have after := stalest new (Nat.le_of_eq length.symm) "long" others rfl (shortSession 0)
    (List.mem_map.mpr ⟨0, by simp, rfl⟩)
  rw [since_self] at after
  cases after

end Evald.Logs
