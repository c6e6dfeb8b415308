import Evald.Model

/-! # A span's identity

`keyOf` packs a canonical pair of ids into its bytes and keeps any other pair as
it is.  `keyOf_inj` says the packing is exact, so de-duplicating by key is
de-duplicating by `(trace_id, span_id)`.
-/

namespace Evald.Store

/-- A span's identity for de-duplication. -/
inductive SpanKey where
  /-- Trace id bytes followed by span id bytes. -/
  | otlp (bytes : List UInt8)
  /-- An id that is not canonical hex. -/
  | other (traceId spanId : String)
  deriving DecidableEq, Repr

/-- Lowercase only: an uppercase digit takes the `other` variant. -/
def nibble (c : UInt8) : Option UInt8 :=
  if 48 ≤ c ∧ c ≤ 57 then some (c - 48)
  else if 97 ≤ c ∧ c ≤ 102 then some (c - 97 + 10)
  else none

def decodePairs : List UInt8 → Option (List UInt8)
  | [] => some []
  | [_] => none
  | high :: low :: rest => do
    let h ← nibble high
    let l ← nibble low
    let out ← decodePairs rest
    pure ((h <<< 4 ||| l) :: out)

/-- `n` bytes from exactly `2 * n` lowercase hex digits. -/
def decodeHex (n : Nat) (s : String) : Option (List UInt8) :=
  let bytes := s.toByteArray.data.toList
  if bytes.length = n * 2 then decodePairs bytes else none

def keyOf (traceId spanId : String) : SpanKey :=
  match decodeHex 16 traceId, decodeHex 8 spanId with
  | some trace, some span => .otlp (trace ++ span)
  | _, _ => .other traceId spanId

def spanKey (s : NormalizedSpan) : SpanKey :=
  keyOf s.traceId s.spanId

/-! ## The packing is exact -/

theorem nibble_eq_some {c x : UInt8} (read : nibble c = some x) :
    x.toNat < 16 ∧ (c.toNat = x.toNat + 48 ∧ x.toNat < 10 ∨ c.toNat = x.toNat + 87 ∧ 10 ≤ x.toNat) := by
  unfold nibble at read
  split at read
  · next digit =>
    obtain ⟨low, high⟩ := digit
    rw [UInt8.le_iff_toNat_le] at low high
    have lowNat : 48 ≤ c.toNat := low
    have highNat : c.toNat ≤ 57 := high
    have value : (c - 48).toNat = c.toNat - 48 := UInt8.toNat_sub_of_le c 48 low
    cases read
    omega
  · split at read
    · next letter =>
      obtain ⟨low, high⟩ := letter
      rw [UInt8.le_iff_toNat_le] at low high
      have lowNat : 97 ≤ c.toNat := low
      have highNat : c.toNat ≤ 102 := high
      have base : (c - 97).toNat = c.toNat - 97 := UInt8.toNat_sub_of_le c 97 low
      have value : (c - 97 + 10).toNat = c.toNat - 97 + 10 := by
        rw [UInt8.toNat_add, base]
        have small : c.toNat - 97 + (10 : UInt8).toNat < 2 ^ 8 := by
          have ten : (10 : UInt8).toNat = 10 := rfl
          omega
        exact Nat.mod_eq_of_lt small
      cases read
      omega
    · cases read

theorem nibble_inj {c d x : UInt8} (left : nibble c = some x) (right : nibble d = some x) :
    c = d := by
  have fromLeft := nibble_eq_some left
  have fromRight := nibble_eq_some right
  apply UInt8.toNat.inj
  omega

theorem packed_inj {h l h' l' : UInt8} (hSmall : h.toNat < 16) (lSmall : l.toNat < 16)
    (hSmall' : h'.toNat < 16) (lSmall' : l'.toNat < 16)
    (same : h <<< 4 ||| l = h' <<< 4 ||| l') : h = h' ∧ l = l' := by
  have value : ∀ a b : Fin 16,
      ((UInt8.ofNat a <<< 4 ||| UInt8.ofNat b).toNat) = a * 16 + b := by decide
  have unpack : ∀ {a b : UInt8}, a.toNat < 16 → b.toNat < 16 →
      (a <<< 4 ||| b).toNat = a.toNat * 16 + b.toNat := by
    intro a b aSmall bSmall
    simpa using value ⟨a.toNat, aSmall⟩ ⟨b.toNat, bSmall⟩
  have numbers := congrArg UInt8.toNat same
  rw [unpack hSmall lSmall, unpack hSmall' lSmall'] at numbers
  exact ⟨UInt8.toNat.inj (by omega), UInt8.toNat.inj (by omega)⟩

theorem decodePairs_length : ∀ {bytes out : List UInt8},
    decodePairs bytes = some out → bytes.length = out.length * 2
  | [], out, read => by cases read; rfl
  | [_], out, read => by cases read
  | high :: low :: rest, out, read => by
    simp only [decodePairs, Option.bind_eq_bind, Option.bind_eq_some_iff] at read
    obtain ⟨h, -, l, -, tail, restRead, packed⟩ := read
    cases packed
    have restLength := decodePairs_length restRead
    simp only [List.length_cons]
    omega

theorem decodePairs_inj : ∀ {bytes bytes' out : List UInt8},
    decodePairs bytes = some out → decodePairs bytes' = some out → bytes = bytes'
  | bytes, bytes', [], left, right => by
    have leftLength := decodePairs_length left
    have rightLength := decodePairs_length right
    rw [List.length_nil] at leftLength rightLength
    rw [List.eq_nil_of_length_eq_zero (by omega : bytes.length = 0),
      List.eq_nil_of_length_eq_zero (by omega : bytes'.length = 0)]
  | [], _, _ :: _, left, _ => by cases left
  | [_], _, _ :: _, left, _ => by cases left
  | _, [], _ :: _, _, right => by cases right
  | _, [_], _ :: _, _, right => by cases right
  | high :: low :: rest, high' :: low' :: rest', byte :: out, left, right => by
    simp only [decodePairs, Option.bind_eq_bind, Option.bind_eq_some_iff] at left right
    obtain ⟨h, hRead, l, lRead, tail, restRead, packed⟩ := left
    obtain ⟨h', hRead', l', lRead', tail', restRead', packed'⟩ := right
    injection packed with packed
    injection packed' with packed'
    injection packed with byteEq tailEq
    injection packed' with byteEq' tailEq'
    subst tailEq tailEq'
    obtain ⟨highs, lows⟩ := packed_inj (nibble_eq_some hRead).1 (nibble_eq_some lRead).1
      (nibble_eq_some hRead').1 (nibble_eq_some lRead').1 (byteEq.trans byteEq'.symm)
    subst highs lows
    rw [nibble_inj hRead hRead', nibble_inj lRead lRead', decodePairs_inj restRead restRead']

theorem decodeHex_length {n : Nat} {s : String} {out : List UInt8}
    (read : decodeHex n s = some out) : out.length = n := by
  simp only [decodeHex] at read
  split at read
  · next width =>
    have pairs := decodePairs_length read
    omega
  · cases read

theorem decodeHex_inj {n : Nat} {s s' : String} {out : List UInt8}
    (left : decodeHex n s = some out) (right : decodeHex n s' = some out) : s = s' := by
  simp only [decodeHex] at left right
  split at left <;> split at right
  · have bytes := decodePairs_inj left right
    apply String.toByteArray_inj.mp
    apply ByteArray.ext
    exact Array.toList_inj.mp bytes
  all_goals first | cases left | cases right

theorem keyOf_inj {traceId spanId traceId' spanId' : String}
    (same : keyOf traceId spanId = keyOf traceId' spanId') :
    traceId = traceId' ∧ spanId = spanId' := by
  unfold keyOf at same
  split at same
  · next trace span traceRead spanRead =>
    split at same
    · next trace' span' traceRead' spanRead' =>
      injection same with bytes
      have widths : trace.length = trace'.length := by
        rw [decodeHex_length traceRead, decodeHex_length traceRead']
      obtain ⟨traces, spans⟩ := List.append_inj bytes widths
      subst traces spans
      exact ⟨decodeHex_inj traceRead traceRead', decodeHex_inj spanRead spanRead'⟩
    · cases same
  · split at same
    · cases same
    · injection same with traces spans
      exact ⟨traces, spans⟩

/-- Two pairs of ids share a key only when they are the same pair, whatever the texts. -/
theorem keyOf_eq_iff (traceId spanId traceId' spanId' : String) :
    keyOf traceId spanId = keyOf traceId' spanId' ↔ traceId = traceId' ∧ spanId = spanId' := by
  constructor
  · exact keyOf_inj
  · intro ⟨traces, spans⟩
    rw [traces, spans]

theorem spanKey_eq_iff {s s' : NormalizedSpan} :
    spanKey s = spanKey s' ↔ s.traceId = s'.traceId ∧ s.spanId = s'.spanId := by
  constructor
  · exact keyOf_inj
  · rintro ⟨traces, spans⟩
    rw [spanKey, spanKey, traces, spans]

/-! ## Filtering by trace -/

def traceMatches (filter : Option String) (s : NormalizedSpan) : Bool :=
  match filter with
  | some t => s.traceId = t
  | none => true

/-- A key decides the trace, so a filter by trace is one by key. -/
theorem exists_traceMatches_byKey (filter : Option String) :
    ∃ keepKey : SpanKey → Bool, ∀ s, traceMatches filter s = keepKey (spanKey s) := by
  classical
  refine ⟨fun k => decide (∃ s, spanKey s = k ∧ traceMatches filter s = true), fun s => ?_⟩
  cases filter with
  | none => exact (decide_eq_true ⟨s, rfl, rfl⟩).symm
  | some t =>
    by_cases wanted : traceMatches (some t) s = true
    · rw [wanted]
      exact (decide_eq_true ⟨s, rfl, wanted⟩).symm
    · rw [Bool.eq_false_iff.mpr wanted]
      refine (decide_eq_false ?_).symm
      rintro ⟨s', sameKey, matched⟩
      have sameTrace := (spanKey_eq_iff.mp sameKey).1
      exact wanted (by rw [traceMatches] at matched ⊢; rw [← sameTrace]; exact matched)

end Evald.Store
