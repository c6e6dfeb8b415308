import Evald.Normalize

/-! # Attributes by key

A reader of attributes looks at the ones with its keys.  What is read of a list stays when
attributes under other keys are taken away (`outside`).
-/

namespace Evald.Normalize

open Evald.Lib Evald.Otlp

/-! ## Attribute lists that agree outside some keys -/

/-- The attributes under other keys. -/
def outside (hidden : List String) (attrs : List KeyValue) : List KeyValue :=
  attrs.filter (fun kv => kv.key ∉ hidden)

theorem attr_outside {hidden : List String} {key : String} (visible : key ∉ hidden)
    (attrs : List KeyValue) : attr (outside hidden attrs) key = attr attrs key := by
  unfold attr outside
  rw [List.find?_filter]
  congr 2
  funext kv
  by_cases same : kv.key = key
  · simp [same, visible]
  · simp [same]

theorem any_outside {hidden : List String} {p : String → Bool}
    (visible : ∀ key ∈ hidden, p key = false) (attrs : List KeyValue) :
    (outside hidden attrs).any (fun kv => p kv.key) = attrs.any (fun kv => p kv.key) := by
  unfold outside
  rw [List.any_filter]
  congr 1
  funext kv
  by_cases inside : kv.key ∈ hidden
  · simp [inside, visible kv.key inside]
  · simp [inside]

/-- The copy of all attributes, key by key: the last one with the key. -/
theorem getElem?_rawAttributes (attrs : List KeyValue) (key : String) :
    (rawAttributes attrs)[key]? =
      (attrs.reverse.find? (fun kv => kv.key = key)).map (fun kv => valueToJson kv.value) := by
  unfold rawAttributes
  induction attrs using List.reverseRecOn with
  | nil => simp
  | append_singleton attrs kv inductionHypothesis =>
    rw [List.foldl_append, List.foldl_cons, List.foldl_nil, getElem?_insert_if,
      inductionHypothesis, List.reverse_append, List.reverse_singleton, List.singleton_append]
    by_cases same : key = kv.key
    · rw [if_pos same, List.find?_cons_of_pos (by simp [same])]
      rfl
    · rw [if_neg same, List.find?_cons_of_neg (by simpa using Ne.symm same)]

theorem getElem?_rawAttributes_outside {hidden : List String} {key : String}
    (visible : key ∉ hidden) (attrs : List KeyValue) :
    (rawAttributes (outside hidden attrs))[key]? = (rawAttributes attrs)[key]? := by
  rw [getElem?_rawAttributes, getElem?_rawAttributes, outside, ← List.filter_reverse,
    List.find?_filter]
  congr 2
  funext kv
  by_cases same : kv.key = key
  · simp [same, visible]
  · simp [same]

/-! ## Reading attributes that agree -/

section Reading

variable (deps : Deps) {hidden : List String} (attrs : List KeyValue)

theorem attrStr_outside {key : String} (visible : key ∉ hidden) :
    attrStr deps (outside hidden attrs) key = attrStr deps attrs key := by
  rw [attrStr, attrStr, attr_outside visible]

theorem attrU64_outside {key : String} (visible : key ∉ hidden) :
    attrU64 (outside hidden attrs) key = attrU64 attrs key := by
  rw [attrU64, attrU64, attr_outside visible]

theorem attrF64_outside {key : String} (visible : key ∉ hidden) :
    attrF64 deps (outside hidden attrs) key = attrF64 deps attrs key := by
  rw [attrF64, attrF64, attr_outside visible]

theorem firstU64_outside {keys : List String} (visible : ∀ key ∈ keys, key ∉ hidden) :
    firstU64 (outside hidden attrs) keys = firstU64 attrs keys := by
  unfold firstU64
  induction keys with
  | nil => rfl
  | cons key keys inductionHypothesis =>
    rw [List.findSome?_cons, List.findSome?_cons, attrU64_outside attrs (visible key (by simp)),
      inductionHypothesis (fun k member => visible k (by simp [member]))]

theorem firstStr_outside {keys : List String} (visible : ∀ key ∈ keys, key ∉ hidden) :
    firstStr deps (outside hidden attrs) keys = firstStr deps attrs keys := by
  unfold firstStr
  induction keys with
  | nil => rfl
  | cons key keys inductionHypothesis =>
    rw [List.findSome?_cons, List.findSome?_cons,
      attrStr_outside deps attrs (visible key (by simp)),
      inductionHypothesis (fun k member => visible k (by simp [member]))]

theorem firstF64_outside {keys : List String} (visible : ∀ key ∈ keys, key ∉ hidden) :
    firstF64 deps (outside hidden attrs) keys = firstF64 deps attrs keys := by
  unfold firstF64
  induction keys with
  | nil => rfl
  | cons key keys inductionHypothesis =>
    rw [List.findSome?_cons, List.findSome?_cons,
      attrF64_outside deps attrs (visible key (by simp)),
      inductionHypothesis (fun k member => visible k (by simp [member]))]

end Reading

end Evald.Normalize
