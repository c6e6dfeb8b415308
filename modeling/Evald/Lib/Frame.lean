import Mathlib

/-! # Length-and-checksum framed logs

A record is `[u32 len][u32 crc][payload]`, little endian.  The reader takes whole
frames from the front and stops at the first that is cut short, fails its checksum
or does not parse.  `decodeRecords_append` is what an append-only log rests on:
frames written one after the other are read back one after the other, whatever
comes behind them.
-/

namespace Evald.Lib

abbrev Bytes := List UInt8

def le32 (n : Nat) : Bytes :=
  [UInt8.ofNat n, UInt8.ofNat (n / 256), UInt8.ofNat (n / 65536), UInt8.ofNat (n / 16777216)]

def fromLe32 : Bytes → Nat
  | [a, b, c, d] => a.toNat + b.toNat * 256 + c.toNat * 65536 + d.toNat * 16777216
  | _ => 0

theorem fromLe32_le32 {n : Nat} (small : n < 2 ^ 32) : fromLe32 (le32 n) = n := by
  simp only [le32, fromLe32, UInt8.toNat_ofNat']
  omega

/-- How payloads are written, parsed and summed.  `readBack` is what parsing a
value's own text gives. -/
structure FrameCodec (α : Type) where
  toVec : α → Option Bytes
  fromSlice : Bytes → Option α
  crc : Bytes → UInt32
  readBack : α → α

variable {α : Type} (codec : FrameCodec α)

/-- Every text that was written parses. -/
def FrameCodec.Parses : Prop :=
  ∀ x payload, codec.toVec x = some payload → codec.fromSlice payload = some (codec.readBack x)

def frameHeaderLen : Nat := 8

/-- One framed record; a payload of `2 ^ 32` bytes or more has no frame. -/
def encodeRecord (x : α) : Option Bytes := do
  let payload ← codec.toVec x
  if payload.length < 2 ^ 32 then
    some (le32 payload.length ++ le32 (codec.crc payload).toNat ++ payload)
  else none

def encodeRecords : List α → Option Bytes
  | [] => some []
  | x :: xs => do
    let frame ← encodeRecord codec x
    let rest ← encodeRecords xs
    pure (frame ++ rest)

/-- Every frame is at least a header long, so `data.length` is fuel enough. -/
def decodeLoop : Nat → Bytes → List α × Nat
  | 0, _ => ([], 0)
  | fuel + 1, data =>
    if data.length < frameHeaderLen then ([], 0)
    else
      let len := fromLe32 (data.take 4)
      let crc := fromLe32 ((data.drop 4).take 4)
      let body := data.drop frameHeaderLen
      if body.length < len then ([], 0)
      else if (codec.crc (body.take len)).toNat ≠ crc then ([], 0)
      else
        match codec.fromSlice (body.take len) with
        | none => ([], 0)
        | some x =>
          let rest := decodeLoop fuel (body.drop len)
          (x :: rest.1, frameHeaderLen + len + rest.2)

/-- The records of a log and the offset of the last good record boundary. -/
def decodeRecords (data : Bytes) : List α × Nat := decodeLoop codec data.length data

theorem decodeLoop_fuel {fuel : Nat} {data : Bytes} (enough : data.length ≤ fuel) :
    decodeLoop codec fuel data = decodeRecords codec data := by
  unfold decodeRecords
  suffices general : ∀ bound fuel fuel' : Nat, ∀ data : Bytes, data.length ≤ bound →
      data.length ≤ fuel → data.length ≤ fuel' →
      decodeLoop codec fuel data = decodeLoop codec fuel' data from
    general data.length fuel data.length data le_rfl enough le_rfl
  intro bound
  induction bound with
  | zero =>
    intro fuel fuel' data short _ _
    have empty : data = [] := List.eq_nil_of_length_eq_zero (by omega)
    subst empty
    cases fuel <;> cases fuel' <;> simp [decodeLoop, frameHeaderLen]
  | succ bound inductionHypothesis =>
    intro fuel fuel' data short left right
    by_cases header : data.length < frameHeaderLen
    · cases fuel <;> cases fuel' <;> simp [decodeLoop, header]
    · have headerLen : frameHeaderLen = 8 := rfl
      obtain ⟨fuel, rfl⟩ : ∃ f, fuel = f + 1 := ⟨fuel - 1, by omega⟩
      obtain ⟨fuel', rfl⟩ : ∃ f, fuel' = f + 1 := ⟨fuel' - 1, by omega⟩
      have shorter : ∀ len, ((data.drop frameHeaderLen).drop len).length ≤ bound ∧
          ((data.drop frameHeaderLen).drop len).length ≤ fuel ∧
          ((data.drop frameHeaderLen).drop len).length ≤ fuel' := by
        intro len
        simp only [List.length_drop]
        omega
      have rest : ∀ len, decodeLoop codec fuel ((data.drop frameHeaderLen).drop len) =
          decodeLoop codec fuel' ((data.drop frameHeaderLen).drop len) := by
        intro len
        obtain ⟨within, within', within''⟩ := shorter len
        exact inductionHypothesis fuel fuel' _ within within' within''
      simp only [decodeLoop, rest]

@[simp] theorem decodeRecords_nil : decodeRecords codec [] = ([], 0) := rfl

variable {codec}

theorem encodeRecord_eq_some {x : α} {frame : Bytes} (encoded : encodeRecord codec x = some frame) :
    ∃ payload, codec.toVec x = some payload ∧ payload.length < 2 ^ 32 ∧
      frame = le32 payload.length ++ le32 (codec.crc payload).toNat ++ payload := by
  simp only [encodeRecord, Option.bind_eq_bind, Option.bind_eq_some_iff] at encoded
  obtain ⟨payload, written, framed⟩ := encoded
  split at framed
  · next fits =>
    cases framed
    exact ⟨payload, written, fits, rfl⟩
  · cases framed

/-- A frame at the front is read, as what its payload parses to. -/
theorem decodeRecords_frame_as {x y : α} {frame : Bytes}
    (parses : ∀ payload, codec.toVec x = some payload → codec.fromSlice payload = some y)
    (encoded : encodeRecord codec x = some frame) (rest : Bytes) :
    decodeRecords codec (frame ++ rest) =
      (y :: (decodeRecords codec rest).1, frame.length + (decodeRecords codec rest).2) := by
  obtain ⟨payload, written, fits, rfl⟩ := encodeRecord_eq_some encoded
  have width : ∀ n, (le32 n).length = 4 := fun _ => rfl
  have total : (le32 payload.length ++ le32 (codec.crc payload).toNat ++ payload ++ rest).length =
      8 + payload.length + rest.length := by
    simp only [List.length_append, width]
  have lenField : (le32 payload.length ++ le32 (codec.crc payload).toNat ++ payload ++ rest).take 4 =
      le32 payload.length := by
    simp [le32]
  have crcField : ((le32 payload.length ++ le32 (codec.crc payload).toNat ++ payload ++
      rest).drop 4).take 4 = le32 (codec.crc payload).toNat := by
    simp [le32]
  have body : (le32 payload.length ++ le32 (codec.crc payload).toNat ++ payload ++
      rest).drop frameHeaderLen = payload ++ rest := by
    simp [le32, frameHeaderLen]
  have crcSmall : (codec.crc payload).toNat < 2 ^ 32 := (codec.crc payload).toNat_lt
  have restFuel : decodeLoop codec (7 + payload.length + rest.length) rest =
      decodeRecords codec rest := decodeLoop_fuel codec (by omega)
  have fuel : (le32 payload.length ++ le32 (codec.crc payload).toNat ++ payload ++ rest).length =
      (7 + payload.length + rest.length) + 1 := by
    rw [total]
    omega
  rw [decodeRecords, fuel, decodeLoop, if_neg (by rw [total, frameHeaderLen]; omega)]
  simp only [lenField, crcField, body, fromLe32_le32 fits, fromLe32_le32 crcSmall]
  rw [if_neg (by rw [List.length_append]; omega), List.take_left' rfl, if_neg (by simp),
    parses payload written, List.drop_left' rfl]
  simp only [restFuel, List.length_append, width, frameHeaderLen]

theorem decodeRecords_frame (parses : codec.Parses) {x : α} {frame : Bytes}
    (encoded : encodeRecord codec x = some frame) (rest : Bytes) :
    decodeRecords codec (frame ++ rest) =
      (codec.readBack x :: (decodeRecords codec rest).1,
        frame.length + (decodeRecords codec rest).2) :=
  decodeRecords_frame_as (parses x) encoded rest

/-- Frames at the front are read, whatever comes behind them. -/
theorem decodeRecords_append (parses : codec.Parses) {xs : List α} {bytes : Bytes}
    (encoded : encodeRecords codec xs = some bytes) (rest : Bytes) :
    decodeRecords codec (bytes ++ rest) =
      (xs.map codec.readBack ++ (decodeRecords codec rest).1,
        bytes.length + (decodeRecords codec rest).2) := by
  induction xs generalizing bytes with
  | nil =>
    cases encoded
    simp
  | cons x xs inductionHypothesis =>
    simp only [encodeRecords, Option.bind_eq_bind, Option.bind_eq_some_iff] at encoded
    obtain ⟨frame, frameEncoded, more, moreEncoded, joined⟩ := encoded
    cases joined
    rw [List.append_assoc, decodeRecords_frame parses frameEncoded, inductionHypothesis moreEncoded]
    simp [Nat.add_assoc]

theorem encodeRecords_append {xs ys : List α} {left right : Bytes}
    (leftEncoded : encodeRecords codec xs = some left)
    (rightEncoded : encodeRecords codec ys = some right) :
    encodeRecords codec (xs ++ ys) = some (left ++ right) := by
  induction xs generalizing left with
  | nil =>
    cases leftEncoded
    exact rightEncoded
  | cons x xs inductionHypothesis =>
    simp only [encodeRecords, Option.bind_eq_bind, Option.bind_eq_some_iff] at leftEncoded
    obtain ⟨frame, frameEncoded, more, moreEncoded, joined⟩ := leftEncoded
    cases joined
    rw [List.cons_append, encodeRecords, frameEncoded, inductionHypothesis moreEncoded]
    simp

/-! ## A log that was cut -/

theorem encodeRecords_cons {x : α} {xs : List α} {bytes : Bytes}
    (encoded : encodeRecords codec (x :: xs) = some bytes) :
    ∃ frame rest, encodeRecord codec x = some frame ∧ encodeRecords codec xs = some rest ∧
      bytes = frame ++ rest := by
  simp only [encodeRecords, Option.bind_eq_bind, Option.bind_eq_some_iff] at encoded
  obtain ⟨frame, frameEncoded, rest, restEncoded, joined⟩ := encoded
  cases joined
  exact ⟨frame, rest, frameEncoded, restEncoded, rfl⟩

/-- A frame that was cut is not read. -/
theorem decodeRecords_frame_cut {x : α} {frame : Bytes}
    (encoded : encodeRecord codec x = some frame) {n : Nat} (cut : n < frame.length) :
    decodeRecords codec (frame.take n) = ([], 0) := by
  obtain ⟨payload, written, fits, framed⟩ := encodeRecord_eq_some encoded
  have width (n : Nat) : (le32 n).length = 4 := rfl
  have length : frame.length = 8 + payload.length := by
    rw [framed]
    simp only [List.length_append, width]
  have taken : (frame.take n).length = n := List.length_take_of_le (by omega)
  cases n with
  | zero => simp
  | succ n =>
    rw [decodeRecords, taken, decodeLoop, taken]
    by_cases header : n + 1 < frameHeaderLen
    · rw [if_pos header]
    · rw [if_neg header]
      have headerLen : frameHeaderLen = 8 := rfl
      -- the header is whole, so the length it gives runs past the cut
      have lenField : (frame.take (n + 1)).take 4 = le32 payload.length := by
        rw [List.take_take, framed, Nat.min_eq_left (by omega), List.append_assoc]
        rfl
      have body : ((frame.take (n + 1)).drop frameHeaderLen).length = n + 1 - 8 := by
        rw [List.length_drop, taken, headerLen]
      simp only [lenField, fromLe32_le32 fits, body]
      rw [if_pos (by omega)]

/-- What is left of a log after a cut is the frames that lie before the cut. -/
theorem decodeRecords_take {xs : List α} {bytes : Bytes}
    (roundTrips : ∀ x ∈ xs, ∀ payload, codec.toVec x = some payload →
      codec.fromSlice payload = some x)
    (encoded : encodeRecords codec xs = some bytes) (n : Nat) :
    ∃ k good, k ≤ xs.length ∧ encodeRecords codec (xs.take k) = some good ∧ good <+: bytes ∧
      good.length ≤ n ∧ decodeRecords codec (bytes.take n) = (xs.take k, good.length) ∧
      ∀ j more, k < j → j ≤ xs.length → encodeRecords codec (xs.take j) = some more →
        n < more.length := by
  induction xs generalizing bytes n with
  | nil =>
    cases encoded
    refine ⟨0, [], Nat.le_refl 0, rfl, List.nil_prefix, Nat.zero_le n, by simp, ?_⟩
    intro j more before within
    have : j ≤ 0 := within
    omega
  | cons x xs inductionHypothesis =>
    obtain ⟨frame, rest, frameEncoded, restEncoded, joined⟩ := encodeRecords_cons encoded
    rw [joined]
    -- the cut falls behind the first frame, or in it and nothing is read
    by_cases whole : frame.length ≤ n
    · obtain ⟨k, good, within, goodEncoded, isPrefix, short, decoded, last⟩ :=
        inductionHypothesis (fun y member => roundTrips y (List.mem_cons_of_mem x member))
          restEncoded (n - frame.length)
      refine ⟨k + 1, frame ++ good, Nat.succ_le_succ within, ?_, ?_, ?_, ?_, ?_⟩
      · rw [List.take_succ_cons, encodeRecords, frameEncoded, goodEncoded]
        rfl
      · exact (List.prefix_append_right_inj frame).mpr isPrefix
      · rw [List.length_append]
        omega
      · rw [List.take_append, List.take_of_length_le whole,
          decodeRecords_frame_as (roundTrips x List.mem_cons_self) frameEncoded, decoded,
          List.take_succ_cons, List.length_append]
      · intro j more later within moreEncoded
        cases j with
        | zero => omega
        | succ j =>
          rw [List.take_succ_cons] at moreEncoded
          obtain ⟨frame', others, frameEncoded', othersEncoded, joined'⟩ :=
            encodeRecords_cons moreEncoded
          rw [frameEncoded] at frameEncoded'
          cases frameEncoded'
          have := last j others (by omega) (Nat.le_of_succ_le_succ within) othersEncoded
          rw [joined', List.length_append]
          omega
    · refine ⟨0, [], Nat.zero_le _, rfl, List.nil_prefix, Nat.zero_le n, ?_, ?_⟩
      · rw [List.take_append_of_le_length (by omega),
          decodeRecords_frame_cut frameEncoded (by omega)]
        rfl
      · intro j more later _ moreEncoded
        cases j with
        | zero => omega
        | succ j =>
          rw [List.take_succ_cons] at moreEncoded
          obtain ⟨frame', others, frameEncoded', -, joined'⟩ := encodeRecords_cons moreEncoded
          rw [frameEncoded] at frameEncoded'
          cases frameEncoded'
          rw [joined', List.length_append]
          omega

end Evald.Lib
