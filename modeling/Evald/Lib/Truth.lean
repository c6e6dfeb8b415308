import Mathlib

/-! # Truth in SQL

A condition is true, false, or `NULL` where an operand is absent.  A row is selected where the
condition is true.
-/

namespace Evald.Lib

inductive Truth where
  | yes
  | no
  | null
  deriving DecidableEq, Repr

namespace Truth

def ofBool (b : Bool) : Truth := if b then yes else no

/-- A condition on a column, which may be absent. -/
def on {α : Type} (column : Option α) (condition : α → Bool) : Truth :=
  match column with
  | some value => ofBool (condition value)
  | none => null

/-- True where one side is; false where both are. -/
def or : Truth → Truth → Truth
  | yes, _ => yes
  | _, yes => yes
  | no, no => no
  | _, _ => null

/-- False where one side is; true where both are. -/
def and : Truth → Truth → Truth
  | no, _ => no
  | _, no => no
  | yes, yes => yes
  | _, _ => null

def not : Truth → Truth
  | yes => no
  | no => yes
  | null => null

@[simp] theorem ofBool_eq_yes {b : Bool} : ofBool b = yes ↔ b = true := by
  cases b <;> simp [ofBool]

@[simp] theorem ofBool_eq_no {b : Bool} : ofBool b = no ↔ b = false := by
  cases b <;> simp [ofBool]

@[simp] theorem or_eq_yes {a b : Truth} : a.or b = yes ↔ a = yes ∨ b = yes := by
  cases a <;> cases b <;> simp [or]

@[simp] theorem and_eq_yes {a b : Truth} : a.and b = yes ↔ a = yes ∧ b = yes := by
  cases a <;> cases b <;> simp [and]

@[simp] theorem not_eq_yes {a : Truth} : a.not = yes ↔ a = no := by
  cases a <;> simp [not]

@[simp] theorem on_eq_yes {α : Type} {column : Option α} {condition : α → Bool} :
    on column condition = yes ↔ ∃ value, column = some value ∧ condition value = true := by
  cases column <;> simp [on]

@[simp] theorem on_eq_no {α : Type} {column : Option α} {condition : α → Bool} :
    on column condition = no ↔ ∃ value, column = some value ∧ condition value = false := by
  cases column <;> simp [on]

end Truth

end Evald.Lib
