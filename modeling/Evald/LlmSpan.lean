import Evald.Agent
import Evald.Deps

/-! # LLM spans

Which spans are model calls, and the time to first token of one.
-/

namespace Evald

open Evald.Lib

/-- The kinds that are not model calls, whatever model they name. -/
def notModelCalls : List String := ["AGENT", "CHAIN", "TOOL"]

/-- Attributes of a model call, even when its model did not resolve. -/
def isCallAttribute (key : String) : Bool :=
  startsWith key "gen_ai.request." || startsWith key "gen_ai.response." ||
    startsWith key "gen_ai.usage."

def isLlmSpan (s : NormalizedSpan) : Bool :=
  let guess := s.model.isSome || s.rawAttributes.keys.any isCallAttribute
  match s.oiKind with
  | some kind =>
    if eqIgnoreAsciiCase kind "LLM" then true
    else if notModelCalls.any (eqIgnoreAsciiCase kind) then false
    else guess
  | none => guess

/-! ## Time to first token -/

/-- The attributes it is read from, in precedence order, with the factor to seconds. -/
def ttftAttrs : List (String × F64) :=
  [("gen_ai.response.time_to_first_chunk", .finite 1),
    ("ai.response.msToFirstChunk", thousandth), ("ai.stream.msToFirstChunk", thousandth),
    ("time_to_first_token_ms", thousandth)]
where
  /-- The double next to 0.001. -/
  thousandth : F64 := .finite (1152921504606847 / 2 ^ 60)

/-- A number, or a text that reads as one. -/
def readNumber (float : Floats) (raw : Json) : Option F64 :=
  (raw.asF64 float).or (raw.asStr.bind (fun s => float.parse (trim s)))

/-- A time that can be used: finite and not negative. -/
def isUsable (v : F64) : Bool := v.isFinite && v.nonneg

/-- One attribute: the name earliest in the list wins. -/
def ttftStep (float : Floats) (best : Option (Nat × F64)) (entry : String × Json) :
    Option (Nat × F64) :=
  let i := ttftAttrs.findIdx (fun a => a.1 = entry.1)
  match ttftAttrs[i]? with
  | none => best
  | some (_, factor) =>
    if best.any (fun seen => seen.1 ≤ i) then best
    else
      match readNumber float entry.2 with
      | none => best
      | some v => if isUsable v then some (i, float.mul v factor) else best

/-- In seconds; a value that is no number, negative or not finite counts as absent. -/
def ttftSeconds (float : Floats) (attrs : Attributes) : Option F64 :=
  (attrs.toList.foldl (ttftStep float) none).map Prod.snd

/-! ## The first attribute that can be used -/

section Usable

variable (float : Floats) (attrs : Attributes)

/-- The time an attribute holds, if it can be used. -/
def usableAt (key : String) : Option F64 := (attrs[key]?.bind (readNumber float)).filter isUsable

variable {float attrs}

/-- What an entry is a candidate for: a place in the precedence, and a time. -/
def candidate (float : Floats) (entry : String × Json) : Option (Nat × F64) :=
  (ttftAttrs[ttftAttrs.findIdx (fun a => a.1 = entry.1)]?).bind (fun name =>
    ((readNumber float entry.2).filter isUsable).map (fun v =>
      (ttftAttrs.findIdx (fun a => a.1 = entry.1), float.mul v name.2)))

theorem ttftStep_eq (best : Option (Nat × F64)) (entry : String × Json) :
    ttftStep float best entry =
      match candidate float entry with
      | none => best
      | some c => if best.any (fun seen => seen.1 ≤ c.1) then best else some c := by
  unfold ttftStep candidate
  dsimp only
  generalize ttftAttrs.findIdx (fun a => a.1 = entry.1) = i
  cases ttftAttrs[i]? with
  | none => rfl
  | some name =>
    cases readNumber float entry.2 with
    | none => simp
    | some v => cases usable : isUsable v <;> simp [Option.filter, usable]

/-- The earliest of the places found so far. -/
def Earliest (found : List (Nat × F64)) (best : Option (Nat × F64)) : Prop :=
  (best = none → found = []) ∧ ∀ b, best = some b → b ∈ found ∧ ∀ c ∈ found, b.1 ≤ c.1

theorem Earliest.ttftStep {found : List (Nat × F64)} {best : Option (Nat × F64)}
    (earliest : Earliest found best) (entry : String × Json) :
    Earliest (found ++ (candidate float entry).toList) (ttftStep float best entry) := by
  rw [ttftStep_eq]
  cases candidate float entry with
  | none => simpa using earliest
  | some c =>
    simp only [Option.toList_some]
    cases best with
    | none =>
      rw [earliest.1 rfl]
      exact ⟨nofun, by simp⟩
    | some b =>
      obtain ⟨listed, least⟩ := earliest.2 b rfl
      -- a later name replaces the best only when it comes earlier in the list
      by_cases sooner : b.1 ≤ c.1
      · rw [Option.any_some, if_pos (by simpa using sooner)]
        refine ⟨nofun, ?_⟩
        intro b' same
        cases same
        refine ⟨List.mem_append_left _ listed, ?_⟩
        intro d found
        rw [List.mem_append, List.mem_singleton] at found
        cases found with
        | inl earlier => exact least d earlier
        | inr last => rwa [last]
      · rw [Option.any_some, if_neg (by simpa using sooner)]
        refine ⟨nofun, ?_⟩
        intro b' same
        cases same
        refine ⟨List.mem_append_right _ (List.mem_singleton_self c), ?_⟩
        intro d found
        rw [List.mem_append, List.mem_singleton] at found
        cases found with
        | inl earlier =>
          have later := least d earlier
          omega
        | inr last => rw [last]

end Usable

end Evald
