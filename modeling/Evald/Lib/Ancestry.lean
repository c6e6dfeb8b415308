import Mathlib.Data.Finset.Max
import Mathlib.Logic.Relation

/-! # Ancestors, and the shallowest carriers below an entry

A finite set of nodes, each with at most one parent among them, so that the ancestors
of a node are a chain that ends at a root or closes on a cycle.  Some nodes are
carriers.  A walk down from the entries (`Entry`: no ancestor is smaller, none is a
root) that stops at carriers finds the contributors; the results say which carriers it
finds and when one contributor is above another.
-/

namespace Evald.Lib

open Relation

variable {α : Type*} [LinearOrder α] {nodes : Finset α} {parentOf : α → α → Prop}
  {carrier : α → Prop}

/-- `p` is an ancestor of `c`, one link or more up. -/
abbrev Above (parentOf : α → α → Prop) : α → α → Prop := TransGen parentOf

def IsRoot (parentOf : α → α → Prop) (c : α) : Prop := ¬ ∃ p, parentOf p c

/-- A root, or the smallest of a chain of ancestors that has no root. -/
def Entry (parentOf : α → α → Prop) (e : α) : Prop :=
  ∀ u, Above parentOf u e → e ≤ u ∧ ¬ IsRoot parentOf u

/-- From `e` down to `q` without passing a carrier. -/
abbrev Shallow (parentOf : α → α → Prop) (carrier : α → Prop) : α → α → Prop :=
  ReflTransGen (fun a b => ¬ carrier a ∧ parentOf a b)

def Contributor (nodes : Finset α) (parentOf : α → α → Prop) (carrier : α → Prop) (q : α) :
    Prop :=
  carrier q ∧ ∃ e ∈ nodes, Entry parentOf e ∧ Shallow parentOf carrier e q

/-- A carrier off every cycle that an entry reaches past no carrier, although a carrier is
above that entry. -/
def Undercut (nodes : Finset α) (parentOf : α → α → Prop) (carrier : α → Prop) : Prop :=
  ∃ e ∈ nodes, ∃ q c, Entry parentOf e ∧ carrier q ∧ ¬ Above parentOf q q ∧
    Shallow parentOf carrier e q ∧ carrier c ∧ Above parentOf c e

/-- Every node has an entry at or above it. -/
theorem exists_entry (within : ∀ p c, parentOf p c → p ∈ nodes) {x : α} (member : x ∈ nodes) :
    ∃ e ∈ nodes, Entry parentOf e ∧ ReflTransGen parentOf e x := by
  classical
  by_cases rooted : ∃ r ∈ nodes, IsRoot parentOf r ∧ ReflTransGen parentOf r x
  · obtain ⟨r, rMember, isRoot, reached⟩ := rooted
    refine ⟨r, rMember, fun u above => ?_, reached⟩
    obtain ⟨p, -, link⟩ := TransGen.tail'_iff.mp above
    exact absurd ⟨p, link⟩ isRoot
  · obtain ⟨e, eMember, least⟩ := (nodes.filter (ReflTransGen parentOf · x)).exists_min_image id
      ⟨x, Finset.mem_filter.mpr ⟨member, .refl⟩⟩
    obtain ⟨present, reached⟩ := Finset.mem_filter.mp eMember
    refine ⟨e, present, fun u above => ?_, reached⟩
    obtain ⟨c, link, -⟩ := TransGen.head'_iff.mp above
    have reachedFrom : ReflTransGen parentOf u x := above.to_reflTransGen.trans reached
    exact ⟨least u (Finset.mem_filter.mpr ⟨within u c link, reachedFrom⟩),
      fun isRoot => rooted ⟨u, within u c link, isRoot, reachedFrom⟩⟩

/-- Every carrier has a contributor at or above it. -/
theorem exists_contributor (within : ∀ p c, parentOf p c → p ∈ nodes) {c : α} (member : c ∈ nodes)
    (carries : carrier c) :
    ∃ x, Contributor nodes parentOf carrier x ∧ ReflTransGen parentOf x c := by
  obtain ⟨e, present, entry, reached⟩ := exists_entry within member
  have first : ∃ x, carrier x ∧ Shallow parentOf carrier e x ∧ ReflTransGen parentOf x c := by
    clear present entry
    induction reached using ReflTransGen.head_induction_on with
    | refl => exact ⟨c, carries, .refl, .refl⟩
    | @head a b link later inductionHypothesis =>
      by_cases here : carrier a
      · exact ⟨a, here, .refl, .head link later⟩
      · obtain ⟨x, found, shallow, below⟩ := inductionHypothesis
        exact ⟨x, found, .head ⟨here, link⟩ shallow, below⟩
  obtain ⟨x, found, shallow, below⟩ := first
  exact ⟨x, ⟨found, e, present, entry, shallow⟩, below⟩

/-- A carrier with no other carrier above it contributes. -/
theorem contributor_of_alone (within : ∀ p c, parentOf p c → p ∈ nodes) {q : α}
    (member : q ∈ nodes) (carries : carrier q)
    (alone : ∀ c, carrier c → Above parentOf c q → c = q) :
    Contributor nodes parentOf carrier q := by
  obtain ⟨x, contributes, below⟩ := exists_contributor within member carries
  rcases reflTransGen_iff_eq_or_transGen.mp below with same | above
  · exact same ▸ contributes
  · exact alone x contributes.1 above ▸ contributes

/-- Any other carrier has a contributor among its ancestors. -/
theorem exists_contributor_above (within : ∀ p c, parentOf p c → p ∈ nodes) {c q : α}
    (carries : carrier c) (above : Above parentOf c q) :
    ∃ x, Contributor nodes parentOf carrier x ∧ Above parentOf x q := by
  obtain ⟨b, link, -⟩ := TransGen.head'_iff.mp above
  obtain ⟨x, contributes, below⟩ := exists_contributor within (within c b link) carries
  exact ⟨x, contributes, TransGen.trans_right below above⟩

omit [LinearOrder α] in
/-- The parent of a node on a cycle is below it. -/
theorem above_parent_of_cycle (unique : ∀ p q c, parentOf p c → parentOf q c → p = q) {p y : α}
    (cycle : Above parentOf y y) (link : parentOf p y) : Above parentOf y p := by
  obtain ⟨p', around, last⟩ := TransGen.tail'_iff.mp cycle
  have same := unique _ _ _ link last
  subst same
  rcases reflTransGen_iff_eq_or_transGen.mp around with here | below
  · exact here ▸ cycle
  · exact below

omit [LinearOrder α] in
/-- And so is every ancestor of it: they are all on the cycle. -/
theorem above_of_cycle (unique : ∀ p q c, parentOf p c → parentOf q c → p = q) {x y : α}
    (cycle : Above parentOf y y) (above : Above parentOf x y) : Above parentOf y x := by
  induction above using TransGen.head_induction_on with
  | single link => exact above_parent_of_cycle unique cycle link
  | head link later inductionHypothesis =>
    have onCycle := later.trans inductionHypothesis
    exact inductionHypothesis.trans (above_parent_of_cycle unique onCycle link)

omit [LinearOrder α] in
/-- A carrier above what an entry reaches past no carrier is above the entry. -/
theorem above_entry (unique : ∀ p q c, parentOf p c → parentOf q c → p = q) {e y x : α}
    (shallow : Shallow parentOf carrier e y) (carries : carrier x) (above : Above parentOf x y) :
    Above parentOf x e := by
  induction shallow with
  | refl => exact above
  | @tail b c _ step inductionHypothesis =>
    obtain ⟨p, reached, last⟩ := TransGen.tail'_iff.mp above
    have same := unique _ _ _ last step.2
    subst same
    rcases reflTransGen_iff_eq_or_transGen.mp reached with here | higher
    · exact absurd (here ▸ carries) step.1
    · exact inductionHypothesis higher

/-- No contributor is above another one, but on a common cycle, exactly when no carrier is
undercut. -/
theorem apart_iff_not_undercut (within : ∀ p c, parentOf p c → p ∈ nodes)
    (unique : ∀ p q c, parentOf p c → parentOf q c → p = q) :
    (∀ x y, Contributor nodes parentOf carrier x → Contributor nodes parentOf carrier y →
      x ≠ y → Above parentOf x y → Above parentOf y x) ↔
      ¬ Undercut nodes parentOf carrier := by
  constructor
  · rintro apart ⟨e, present, q, c, entry, carries, offCycle, shallow, carriesAbove, above⟩
    have onward : ReflTransGen parentOf e q :=
      ReflTransGen.mono (fun _ _ step => And.right step) e q shallow
    obtain ⟨x, contributes, aboveEntry⟩ := exists_contributor_above within carriesAbove above
    have aboveQ : Above parentOf x q := aboveEntry.trans_left onward
    have other : x ≠ q := fun same => offCycle (same ▸ aboveQ)
    have below := apart x q contributes ⟨carries, e, present, entry, shallow⟩ other aboveQ
    exact offCycle (below.trans aboveQ)
  · rintro none x y contributesX ⟨carriesY, e, present, entry, shallow⟩ - above
    by_contra notBelow
    refine none ⟨e, present, y, x, entry, carriesY, fun cycle => ?_, shallow, contributesX.1,
      above_entry unique shallow contributesX.1 above⟩
    exact notBelow (above_of_cycle unique cycle above)

end Evald.Lib
