import Evald.Model
import Evald.Lib.Multimap

/-! # What a dialect remembers about a session

Two layers: the request being mapped, which is looked at first, and the sessions most
recently seen on this node.  As long as nothing has been forgotten the two say the
same of every named session, so a record reads and writes one memory
(`Use.run_eq`), whichever request it arrives in.
-/

namespace Evald.Logs

open Evald.Lib

/-- The sessions a node remembers, the oldest first in `order`. -/
structure Recall (T : Type) where
  map : Std.ExtTreeMap String T := ∅
  order : List String := []

/-- The layer of the request being mapped. -/
abbrev Local (T : Type) := Std.ExtTreeMap String T

def recallCapacity : Nat := 4096

variable {T : Type}

/-- What is remembered about `session`: this request's copy, else this node's. -/
def Recall.get (recent : Recall T) (loc : Local T) (session : String) : Option T :=
  match loc[session]? with
  | some t => some t
  | none => if session = "" then none else recent.map[session]?

/-- Past the capacity the oldest sessions go. -/
def forgetOldest (map : Std.ExtTreeMap String T) : List String → Recall T
  | [] => { map := map, order := [] }
  | old :: rest =>
    if recallCapacity < (old :: rest).length then forgetOldest (map.erase old) rest
    else { map := map, order := old :: rest }

def Recall.remember (recent : Recall T) (session : String) (value : T) : Recall T :=
  if recent.map.contains session then { recent with map := recent.map.insert session value }
  else forgetOldest (recent.map.insert session value) (recent.order ++ [session])

/-- Change what is remembered about `session`, in this request and on this node. -/
def Recall.update [Inhabited T] (recent : Recall T) (loc : Local T) (session : String)
    (f : T → T) : Local T × Recall T :=
  if session = "" then (loc.insert "" (f (loc.getD "" default)), recent)
  else
    let entry :=
      match loc[session]? with
      | some t => t
      | none => recent.map.getD session default
    let value := f entry
    (loc.insert session value, recent.remember session value)

/-! ## The order only grows up to the capacity -/

theorem forgetOldest_of_fits {map : Std.ExtTreeMap String T} {order : List String}
    (fits : (forgetOldest map order).order.length < recallCapacity) :
    forgetOldest map order = { map := map, order := order } := by
  induction order generalizing map with
  | nil => rfl
  | cons old rest inductionHypothesis =>
    unfold forgetOldest at fits ⊢
    split
    · next full =>
      -- one more than fits would leave exactly as many as fit
      rw [if_pos full] at fits
      have kept := inductionHypothesis fits
      rw [kept] at fits
      simp only [List.length_cons] at full fits
      omega
    · rfl

theorem Recall.order_remember (recent : Recall T) (session : String) (value : T)
    (fits : (recent.remember session value).order.length < recallCapacity) :
    recent.order.length ≤ (recent.remember session value).order.length := by
  unfold Recall.remember at fits ⊢
  split
  · exact Nat.le_refl _
  · next absent =>
    rw [if_neg absent] at fits
    rw [forgetOldest_of_fits fits]
    simp

theorem Recall.map_remember {recent : Recall T} {session : String} {value : T}
    (fits : (recent.remember session value).order.length < recallCapacity) :
    (recent.remember session value).map = recent.map.insert session value := by
  unfold Recall.remember at fits ⊢
  split
  · rfl
  · next absent =>
    rw [if_neg absent] at fits
    rw [forgetOldest_of_fits fits]

/-! ## One memory -/

/-- The request's copy of a named session is the node's. -/
def Coherent (loc : Local T) (recent : Recall T) : Prop :=
  ∀ session v, session ≠ "" → loc[session]? = some v → recent.map[session]? = some v

theorem coherent_empty (recent : Recall T) : Coherent ∅ recent := by
  intro session v _ found
  simp at found

theorem Recall.get_of_coherent {recent : Recall T} {loc : Local T} {session : String}
    (coherent : Coherent loc recent) (named : session ≠ "") :
    recent.get loc session = recent.map[session]? := by
  unfold Recall.get
  split
  · next t found => exact (coherent session t named found).symm
  · rw [if_neg named]

/-- An update of a named session, in terms of what was remembered. -/
theorem Recall.update_of_named [Inhabited T] (recent : Recall T) (loc : Local T)
    {session : String} (f : T → T) (named : session ≠ "") :
    recent.update loc session f =
      (loc.insert session (f ((recent.get loc session).getD default)),
        recent.remember session (f ((recent.get loc session).getD default))) := by
  unfold Recall.update Recall.get
  rw [if_neg named, if_neg named]
  cases loc[session]? with
  | some t => rfl
  | none => rw [Std.ExtTreeMap.getD_eq_getD_getElem?]

/-- What a record does to a memory: the session it names, what it becomes given what is
remembered of the session, and how it changes that. -/
structure Use (T β : Type) where
  session : String
  answer : Option T → β
  change : Option T → Option (T → T)

variable {β : Type}

/-- A use that leaves the memory alone. -/
def Use.constant (b : β) : Use T β :=
  { session := "", answer := fun _ => b, change := fun _ => none }

/-- Over the two layers. -/
def Use.run [Inhabited T] (use : Use T β) (recent : Recall T) (loc : Local T) :
    β × Local T × Recall T :=
  let seen := recent.get loc use.session
  (use.answer seen,
    match use.change seen with
    | none => (loc, recent)
    | some f => recent.update loc use.session f)

/-- What is remembered of each session. -/
abbrev Memory (T : Type) := String → Option T

/-- Over one memory. -/
def Use.step [Inhabited T] (use : Use T β) (memory : Memory T) : β × Memory T :=
  let seen := memory use.session
  (use.answer seen,
    match use.change seen with
    | none => memory
    | some f => Function.update memory use.session (some (f (seen.getD default))))

/-- What outlives a request: a record with no session is remembered within its own. -/
def Memory.named (memory : Memory T) : Memory T := Function.update memory "" none

theorem Use.order_run [Inhabited T] (use : Use T β) (recent : Recall T) (loc : Local T)
    (fits : (use.run recent loc).2.2.order.length < recallCapacity) :
    recent.order.length ≤ (use.run recent loc).2.2.order.length := by
  unfold Use.run at fits ⊢
  cases changed : use.change (recent.get loc use.session) with
  | none => simp only [changed, Nat.le_refl]
  | some f =>
    simp only [changed] at fits ⊢
    by_cases named : use.session = ""
    · simp [Recall.update, named]
    · rw [recent.update_of_named loc f named] at fits ⊢
      exact recent.order_remember _ _ fits

/-- A use of no named session leaves the memory alone and does not read it. -/
def Use.Named (use : Use T β) : Prop :=
  use.session = "" → ∃ b, ∀ seen, use.answer seen = b ∧ use.change seen = none

theorem Use.named_constant (b : β) : (Use.constant b : Use T β).Named :=
  fun _ => ⟨b, fun _ => ⟨rfl, rfl⟩⟩

/-- The request's layer adds nothing to what the node remembers. -/
theorem Use.run_alone [Inhabited T] {use : Use T β} {recent : Recall T} {loc : Local T}
    (coherent : Coherent loc recent) (named : use.Named) :
    (use.run recent loc).1 = (use.run recent ∅).1 ∧
      (use.run recent loc).2.2 = (use.run recent ∅).2.2 := by
  by_cases empty : use.session = ""
  · obtain ⟨b, constant⟩ := named empty
    unfold Use.run
    simp only [(constant _).1, (constant _).2]
    exact ⟨trivial, trivial⟩
  · have seen : recent.get loc use.session = recent.get ∅ use.session := by
      rw [Recall.get_of_coherent coherent empty,
        Recall.get_of_coherent (coherent_empty recent) empty]
    unfold Use.run
    rw [seen]
    refine ⟨rfl, ?_⟩
    simp only
    cases use.change (recent.get ∅ use.session) with
    | none => rfl
    | some f =>
      simp only
      rw [recent.update_of_named loc f empty, recent.update_of_named ∅ f empty, seen]

/-- What an update does to a coherent pair of layers. -/
theorem Recall.update_spec [Inhabited T] {recent : Recall T} {loc : Local T}
    {session : String} (f : T → T) (coherent : Coherent loc recent)
    (fits : (recent.update loc session f).2.order.length < recallCapacity) :
    (recent.update loc session f).2.get (recent.update loc session f).1 =
        Function.update (recent.get loc) session
          (some (f ((recent.get loc session).getD default))) ∧
      Coherent (recent.update loc session f).1 (recent.update loc session f).2 := by
  -- a record without a session is remembered in the request only
  by_cases named : session = ""
  · subst named
    have updated : recent.update loc "" f =
        (loc.insert "" (f ((recent.get loc "").getD default)), recent) := by
      unfold Recall.update Recall.get
      rw [if_pos rfl, if_pos rfl, Std.ExtTreeMap.getD_eq_getD_getElem?]
      cases loc[""]? <;> rfl
    rw [updated]
    refine ⟨?_, ?_⟩
    · funext other
      rw [Function.update_apply]
      unfold Recall.get
      rw [getElem?_insert_if]
      by_cases same : other = ""
      · simp [same]
      · simp [same]
    · intro other v notEmpty found
      rw [getElem?_insert_if, if_neg notEmpty] at found
      exact coherent other v notEmpty found
  · rw [recent.update_of_named loc f named] at fits ⊢
    have kept := Recall.map_remember fits
    -- what the request remembers of a named session the node remembers too
    have coherent' : Coherent (loc.insert session (f ((recent.get loc session).getD default)))
        (recent.remember session (f ((recent.get loc session).getD default))) := by
      intro other v notEmpty found
      rw [kept, getElem?_insert_if]
      rw [getElem?_insert_if] at found
      by_cases same : other = session
      · rwa [if_pos same] at found ⊢
      · rw [if_neg same] at found ⊢
        exact coherent other v notEmpty found
    refine ⟨?_, coherent'⟩
    funext other
    rw [Function.update_apply]
    by_cases empty : other = ""
    · subst empty
      have notSession : ¬ "" = session := fun h => named h.symm
      unfold Recall.get
      rw [if_neg notSession, getElem?_insert_if, if_neg notSession, if_pos rfl, if_pos rfl]
    · rw [Recall.get_of_coherent coherent' empty, Recall.get_of_coherent coherent empty, kept,
        getElem?_insert_if]

/-- As long as nothing is forgotten, the two layers are one memory. -/
theorem Use.run_eq [Inhabited T] {use : Use T β} {recent : Recall T} {loc : Local T}
    (coherent : Coherent loc recent)
    (fits : (use.run recent loc).2.2.order.length < recallCapacity) :
    (use.run recent loc).1 = (use.step (recent.get loc)).1 ∧
      (use.run recent loc).2.2.get (use.run recent loc).2.1 = (use.step (recent.get loc)).2 ∧
      Coherent (use.run recent loc).2.1 (use.run recent loc).2.2 := by
  unfold Use.run Use.step at *
  cases changed : use.change (recent.get loc use.session) with
  | none =>
    simp only [changed]
    exact ⟨trivial, trivial, coherent⟩
  | some f =>
    simp only [changed] at fits ⊢
    exact ⟨trivial, Recall.update_spec f coherent fits⟩

/-- The next request starts from the named part of the memory. -/
theorem Recall.get_empty {recent : Recall T} {loc : Local T} (coherent : Coherent loc recent) :
    recent.get ∅ = Memory.named (recent.get loc) := by
  funext session
  unfold Memory.named
  rw [Function.update_apply]
  by_cases empty : session = ""
  · subst empty
    simp [Recall.get]
  · rw [if_neg empty, Recall.get_of_coherent coherent empty,
      Recall.get_of_coherent (coherent_empty recent) empty]

end Evald.Logs
