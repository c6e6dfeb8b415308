import Evald.EvalEvent
import Evald.Lib.Probe

/-! # The blob store

Long payloads live in files named by their length and a hash, and a payload that meets
another one under its name is stored under the next free name.  Whatever the hash
collides on, a reference keeps meaning its bytes (`putAll_exact`).
-/

namespace Evald.Blob

open Evald.Lib

def refPrefix : String := "evald-blob:"

/-- The directory, by file name. -/
structure BlobStore where
  files : Std.ExtTreeMap String (List UInt8) := ∅

/-- Sixteen hexadecimal digits. -/
def hex64 (n : Nat) : String := hexEncode (EvalEvent.beBytes n)

variable (hash : List UInt8 → UInt64)

/-- The length and the hash of a content. -/
def keyFor (bytes : List UInt8) : String := hex64 bytes.length ++ hex64 (hash bytes).toNat

/-- The `n`-th name that is tried; the counter has 32 bits. -/
def probeKey (base : String) (n : Nat) : String :=
  if n = 0 then base else base ++ "-" ++ toString (n % 2 ^ 32)

/-- A write goes through, or fails before the file has its name or after. -/
inductive Write where
  | taken
  | refused
  | unsynced
  deriving DecidableEq

/-- How the disk answers one call: whether the read of the `n`-th name goes through, and
the write. -/
structure Disk where
  reads : Nat → Bool := fun _ => true
  write : Write := .taken

namespace BlobStore

def fetch (store : BlobStore) (key : String) : Option (List UInt8) := store.files[key]?

/-- The file under a name, and whether the write reports success. -/
def writeAtomic (store : BlobStore) (write : Write) (key : String) (bytes : List UInt8) :
    Option String × BlobStore :=
  match write with
  | .taken => (some key, { files := store.files.insert key bytes })
  | .refused => (none, store)
  | .unsynced => (none, { files := store.files.insert key bytes })

/-- The first name that holds these bytes or nothing.  With every name taken the search
does not end, which is a refusal here. -/
def putFrom (store : BlobStore) (disk : Disk) (base : String) (bytes : List UInt8) :
    Nat → Nat → Option String × BlobStore
  | 0, _ => (none, store)
  | fuel + 1, n =>
    let key := probeKey base n
    if disk.reads n then
      match store.fetch key with
      | some existing =>
        if existing = bytes then (some key, store)
        else putFrom store disk base bytes fuel (n + 1)
      | none => store.writeAtomic disk.write key bytes
    else (none, store)

/-- Store some bytes and name them. -/
def put (store : BlobStore) (disk : Disk) (bytes : List UInt8) : Option String × BlobStore :=
  let stored := store.putFrom disk (keyFor hash bytes) bytes (2 ^ 32 + 1) 0
  (stored.1.map (fun key => refPrefix ++ key), stored.2)

/-- `c.is_ascii_hexdigit() || c == '-'` -/
def isKeyChar (c : Char) : Bool :=
  let n := c.toNat
  (48 ≤ n && n ≤ 57) || (65 ≤ n && n ≤ 70) || (97 ≤ n && n ≤ 102) || c = '-'

def isSafeKey (key : String) : Bool :=
  key ≠ "" && (utf8 key).length ≤ 64 && key.toList.all isKeyChar

/-- The bytes a reference, or a bare key, names. -/
def get (store : BlobStore) (keyOrRef : String) : Option (List UInt8) :=
  let key := (stripPrefix keyOrRef refPrefix).getD keyOrRef
  if isSafeKey key then store.fetch key else none

/-- A sequence of calls and what each one returned. -/
def putAll (store : BlobStore) : List (List UInt8 × Disk) → List (Option String) × BlobStore
  | [] => ([], store)
  | (bytes, disk) :: calls =>
    let stored := store.put hash disk bytes
    let rest := putAll stored.2 calls
    (stored.1 :: rest.1, rest.2)

/-! ## Every name is safe -/

theorem isKeyChar_hexDigit {n : Nat} (small : n < 16) :
    isKeyChar (hexDigit n) = true ∧ (hexDigit n).utf8Size = 1 := by
  have table : ∀ x < 16, isKeyChar (hexDigit x) = true ∧ (hexDigit x).utf8Size = 1 := by
    decide
  exact table n small

theorem isKeyChar_digit {c : Char} (digit : c.isDigit = true) :
    isKeyChar c = true ∧ c.utf8Size = 1 := by
  have range : 48 ≤ c.toNat ∧ c.toNat ≤ 57 := by
    rw [Char.isDigit, Bool.and_eq_true, decide_eq_true_eq, decide_eq_true_eq] at digit
    exact ⟨UInt32.le_iff_toNat_le.mp digit.1, UInt32.le_iff_toNat_le.mp digit.2⟩
  constructor
  · have low : decide (48 ≤ c.toNat) = true := decide_eq_true range.1
    have high : decide (c.toNat ≤ 57) = true := decide_eq_true range.2
    show ((decide (48 ≤ c.toNat) && decide (c.toNat ≤ 57)) || _ || _ || _) = true
    rw [low, high]
    rfl
  · apply Char.utf8Size_eq_one_iff.mpr
    rw [UInt32.le_iff_toNat_le]
    show c.toNat ≤ 127
    omega

theorem length_utf8 {chars : List Char} (ascii : ∀ c ∈ chars, c.utf8Size = 1) :
    (utf8 (String.ofList chars)).length = chars.length := by
  have size (s : String) : (utf8 s).length = s.utf8ByteSize := by simp [utf8]
  rw [size]
  induction chars with
  | nil => rfl
  | cons c chars inductionHypothesis =>
    have split : String.ofList (c :: chars) = String.singleton c ++ String.ofList chars := by
      rw [String.singleton_eq_ofList, ← String.ofList_append]
      rfl
    rw [split, String.utf8ByteSize_append, String.utf8ByteSize_singleton,
      inductionHypothesis (fun x member => ascii x (List.mem_cons_of_mem _ member)),
      ascii c List.mem_cons_self, List.length_cons, Nat.add_comm]

theorem hexChar_of_mem {bytes : List UInt8} {c : Char} (member : c ∈ bytes.flatMap hexByte) :
    isKeyChar c = true ∧ c.utf8Size = 1 := by
  obtain ⟨b, -, digit⟩ := List.mem_flatMap.mp member
  have small := b.toNat_lt
  simp only [hexByte, List.mem_cons, List.not_mem_nil, or_false] at digit
  cases digit with
  | inl high =>
    rw [high]
    exact isKeyChar_hexDigit (by omega)
  | inr low =>
    rw [low]
    exact isKeyChar_hexDigit (by omega)

/-- The characters of a name. -/
theorem probeKey_chars (bytes : List UInt8) (i : Nat) :
    ∃ chars, probeKey (keyFor hash bytes) i = String.ofList chars ∧ 0 < chars.length ∧
      chars.length ≤ 64 ∧ ∀ c ∈ chars, isKeyChar c = true ∧ c.utf8Size = 1 := by
  let hex (n : Nat) : List Char := (EvalEvent.beBytes n).flatMap hexByte
  have hexLength (n : Nat) : (hex n).length = 16 := by
    simp only [hex, EvalEvent.beBytes, List.length_flatMap, List.map_map]
    rfl
  have hexChars (n : Nat) (c : Char) (member : c ∈ hex n) : isKeyChar c = true ∧ c.utf8Size = 1 :=
    hexChar_of_mem member
  have base : keyFor hash bytes = String.ofList (hex bytes.length ++ hex (hash bytes).toNat) := by
    rw [String.ofList_append]
    rfl
  unfold probeKey
  by_cases first : i = 0
  · rw [if_pos first]
    refine ⟨_, base, ?_, ?_, fun c member => ?_⟩
    · simp only [List.length_append, hexLength]
      omega
    · simp only [List.length_append, hexLength]
      omega
    · cases List.mem_append.mp member with
      | inl length => exact hexChars _ c length
      | inr hashed => exact hexChars _ c hashed
  · rw [if_neg first]
    have number : toString (i % 2 ^ 32) = String.ofList (Nat.toDigits 10 (i % 2 ^ 32)) :=
      Nat.toString_eq_ofList_toDigits
    -- the suffix counts in 32 bits, so it has at most ten digits
    have short : (Nat.toDigits 10 (i % 2 ^ 32)).length ≤ 10 := by
      rw [Nat.length_toDigits_le_iff (by omega) (by omega)]
      exact Nat.lt_trans (Nat.mod_lt _ (by omega)) (by decide)
    refine ⟨(hex bytes.length ++ hex (hash bytes).toNat) ++ ['-'] ++
      Nat.toDigits 10 (i % 2 ^ 32), ?_, ?_, ?_, fun c member => ?_⟩
    · have dash : "-" = String.ofList ['-'] := rfl
      simp only [base, number, dash, String.ofList_append]
    · simp only [List.length_append, hexLength]
      omega
    · simp only [List.length_append, hexLength, List.length_singleton]
      omega
    · simp only [List.mem_append, List.mem_singleton] at member
      rcases member with ((length | hashed) | dash) | digit
      · exact hexChars _ c length
      · exact hexChars _ c hashed
      · rw [dash]
        decide
      · exact isKeyChar_digit (Nat.isDigit_of_mem_toDigits (by omega) (by omega) digit)

theorem isSafeKey_probeKey (bytes : List UInt8) (i : Nat) :
    isSafeKey (probeKey (keyFor hash bytes) i) = true := by
  obtain ⟨chars, named, some, fits, safe⟩ := probeKey_chars hash bytes i
  rw [named]
  unfold isSafeKey
  rw [length_utf8 (fun c member => (safe c member).2), String.toList_ofList, Bool.and_eq_true,
    Bool.and_eq_true, decide_eq_true_eq, decide_eq_true_eq, List.all_eq_true]
  refine ⟨⟨fun empty => ?_, fits⟩, fun c member => (safe c member).1⟩
  have none : chars = [] := by
    rw [← String.toList_ofList (l := chars), empty]
    rfl
  rw [none] at some
  exact Nat.lt_irrefl 0 some

/-! ## One call -/

variable {hash}

theorem writeAtomic_extends {store : BlobStore} (write : Write) {key : String}
    (bytes : List UInt8) (free : store.fetch key = none) :
    Extends (store.writeAtomic write key bytes).2.fetch store.fetch := by
  cases write with
  | taken => exact extends_insert free bytes
  | refused => exact Extends.refl _
  | unsynced => exact extends_insert free bytes

theorem size_writeAtomic (store : BlobStore) (write : Write) (key : String)
    (bytes : List UInt8) :
    (store.writeAtomic write key bytes).2.files.size ≤ store.files.size + 1 := by
  cases write with
  | refused => exact Nat.le_succ _
  | _ => exact Std.ExtTreeMap.size_insert_le

theorem putFrom_extends (store : BlobStore) (disk : Disk) (base : String) (bytes : List UInt8)
    (fuel n : Nat) :
    Extends (store.putFrom disk base bytes fuel n).2.fetch store.fetch ∧
      (store.putFrom disk base bytes fuel n).2.files.size ≤ store.files.size + 1 := by
  induction fuel generalizing n with
  | zero => exact ⟨Extends.refl _, Nat.le_succ _⟩
  | succ fuel inductionHypothesis =>
    rw [putFrom]
    split
    · split
      · split
        · exact ⟨Extends.refl _, Nat.le_succ _⟩
        · exact inductionHypothesis (n + 1)
      · next free => exact ⟨writeAtomic_extends _ _ free, size_writeAtomic store _ _ _⟩
    · exact ⟨Extends.refl _, Nat.le_succ _⟩

/-- Where a call that returned has put the bytes. -/
theorem putFrom_settled {store : BlobStore} {disk : Disk} {base key : String}
    {bytes : List UInt8} {fuel n : Nat}
    (passed : ∀ j < n, ∃ other, other ≠ bytes ∧ store.fetch (probeKey base j) = some other)
    (stored : (store.putFrom disk base bytes fuel n).1 = some key) :
    ∃ i, key = probeKey base i ∧
      Settled (probeKey base) bytes (store.putFrom disk base bytes fuel n).2.fetch i := by
  -- on the probes that are left; the ones before this name hold other bytes
  induction fuel generalizing n with
  | zero => cases stored
  | succ fuel inductionHypothesis =>
    rw [putFrom] at stored ⊢
    split at stored
    · next readable =>
      rw [if_pos readable]
      cases content : store.fetch (probeKey base n) with
      | some existing =>
        simp only [content] at stored ⊢
        split at stored
        · next same =>
          rw [if_pos same]
          exact ⟨n, (Option.some.inj stored).symm, same ▸ content, passed⟩
        · next differ =>
          rw [if_neg differ]
          refine inductionHypothesis (fun j before => ?_) stored
          by_cases last : j = n
          · exact ⟨existing, differ, last ▸ content⟩
          · exact passed j (by omega)
      | none =>
        simp only [content] at stored ⊢
        -- the write is to a free name, so the names passed keep their bytes
        have grown := writeAtomic_extends disk.write bytes content
        cases write : disk.write with
        | taken =>
          rw [write] at stored grown
          have held : (store.writeAtomic .taken (probeKey base n) bytes).2.fetch
              (probeKey base n) = some bytes := Std.ExtTreeMap.getElem?_insert_self
          refine ⟨n, (Option.some.inj stored).symm, held, fun j before => ?_⟩
          obtain ⟨other, differ, there⟩ := passed j before
          exact ⟨other, differ, grown _ _ there⟩
        | refused =>
          rw [write] at stored
          cases stored
        | unsynced =>
          rw [write] at stored
          cases stored
    · cases stored

/-- With every answer of the disk good, a call ends at a free name if not before. -/
theorem putFrom_returns {store : BlobStore} {base : String} {bytes : List UInt8}
    {fuel n i : Nat} (start : n ≤ i) (stop : i < n + fuel)
    (free : store.fetch (probeKey base i) = none) :
    (store.putFrom {} base bytes fuel n).1.isSome = true := by
  induction fuel generalizing n with
  | zero => omega
  | succ fuel inductionHypothesis =>
    rw [putFrom, if_pos rfl]
    cases content : store.fetch (probeKey base n) with
    | none => rfl
    | some existing =>
      simp only
      split
      · rfl
      · have later : n ≠ i := by
          intro same
          rw [same, free] at content
          cases content
        exact inductionHypothesis (by omega) (by omega)

/-- The counter's names are distinct until it wraps. -/
theorem probeKey_inj (base : String) {i j : Nat} (small : i < 2 ^ 32) (small' : j < 2 ^ 32)
    (same : probeKey base i = probeKey base j) : i = j := by
  have longer (n : Nat) : base ≠ base ++ "-" ++ toString n := by
    intro equal
    have lengths := congrArg (fun s => s.toList.length) equal
    simp only [String.toList_append, List.length_append] at lengths
    have dash : "-".toList.length = 1 := rfl
    omega
  unfold probeKey at same
  by_cases first : i = 0
  · by_cases second : j = 0
    · rw [first, second]
    · rw [if_pos first, if_neg second] at same
      exact absurd same (longer _)
  · by_cases second : j = 0
    · rw [if_neg first, if_pos second] at same
      exact absurd same.symm (longer _)
    · rw [if_neg first, if_neg second, Nat.mod_eq_of_lt small, Nat.mod_eq_of_lt small',
        String.append_right_inj, Nat.toString_eq_ofList_toDigits,
        Nat.toString_eq_ofList_toDigits] at same
      have digits := String.ofList_injective same
      rw [← Nat.ofDigitChars_ten_toDigits (n := i), digits, Nat.ofDigitChars_ten_toDigits]

/-! ## References -/

/-- A reference names the first of the content's names that does not hold another content. -/
def Names (hash : List UInt8 → UInt64) (store : BlobStore) (ref : String)
    (bytes : List UInt8) : Prop :=
  ∃ i, ref = refPrefix ++ probeKey (keyFor hash bytes) i ∧
    Settled (probeKey (keyFor hash bytes)) bytes store.fetch i

theorem Names.later {store later : BlobStore} {ref : String} {bytes : List UInt8}
    (named : Names hash store ref bytes) (grown : Extends later.fetch store.fetch) :
    Names hash later ref bytes := by
  obtain ⟨i, spelled, settled⟩ := named
  exact ⟨i, spelled, settled.later grown⟩

theorem Names.unique {store : BlobStore} {ref ref' : String} {bytes : List UInt8}
    (first : Names hash store ref bytes) (second : Names hash store ref' bytes) : ref = ref' := by
  obtain ⟨i, spelled, settled⟩ := first
  obtain ⟨j, spelled', settled'⟩ := second
  rw [spelled, spelled', settled.unique settled']

theorem Names.get_eq {store : BlobStore} {ref : String} {bytes : List UInt8}
    (named : Names hash store ref bytes) : store.get ref = some bytes := by
  obtain ⟨i, spelled, settled⟩ := named
  have stripped : stripPrefix ref refPrefix = some (probeKey (keyFor hash bytes) i) :=
    stripPrefix_eq_some.mpr spelled
  rw [get, stripped, Option.getD_some, if_pos (isSafeKey_probeKey hash bytes i)]
  exact settled.held

theorem put_extends (hash : List UInt8 → UInt64) (store : BlobStore) (disk : Disk)
    (bytes : List UInt8) :
    Extends (store.put hash disk bytes).2.fetch store.fetch :=
  (putFrom_extends store disk _ bytes _ 0).1

theorem size_put (hash : List UInt8 → UInt64) (store : BlobStore) (disk : Disk)
    (bytes : List UInt8) :
    (store.put hash disk bytes).2.files.size ≤ store.files.size + 1 :=
  (putFrom_extends store disk _ bytes _ 0).2

/-- What a call returns names what it was given. -/
theorem put_names {store : BlobStore} {disk : Disk} {bytes : List UInt8} {ref : String}
    (returned : (store.put hash disk bytes).1 = some ref) :
    Names hash (store.put hash disk bytes).2 ref bytes := by
  obtain ⟨key, stored, spelled⟩ := Option.map_eq_some_iff.mp returned
  obtain ⟨i, named, settled⟩ := putFrom_settled (fun _ negative => by omega) stored
  exact ⟨i, by rw [← spelled, named], settled⟩

theorem put_returns (hash : List UInt8 → UInt64) (bytes : List UInt8) {store : BlobStore}
    (room : store.files.size < 2 ^ 32) :
    (store.put hash {} bytes).1.isSome = true := by
  obtain ⟨i, small, free⟩ := exists_free (m := store.files) (n := 2 ^ 32)
    (fun i small j small' same => probeKey_inj (keyFor hash bytes) small small' same) room
  rw [put, Option.isSome_map]
  exact putFrom_returns (Nat.zero_le i) (by omega) free

/-! ## All calls -/

theorem putAll_append (store : BlobStore) (earlier later : List (List UInt8 × Disk)) :
    store.putAll hash (earlier ++ later) =
      ((store.putAll hash earlier).1 ++ ((store.putAll hash earlier).2.putAll hash later).1,
        ((store.putAll hash earlier).2.putAll hash later).2) := by
  induction earlier generalizing store with
  | nil => rfl
  | cons call earlier inductionHypothesis =>
    rw [List.cons_append, putAll, inductionHypothesis]
    rfl

theorem putAll_extends (store : BlobStore) (calls : List (List UInt8 × Disk)) :
    Extends (store.putAll hash calls).2.fetch store.fetch := by
  induction calls generalizing store with
  | nil => exact Extends.refl _
  | cons call calls inductionHypothesis =>
    exact (inductionHypothesis _).trans (put_extends hash store call.2 call.1)

/-- At the end every returned reference names the content of its call. -/
theorem putAll_names {store : BlobStore} {calls : List (List UInt8 × Disk)} {i : Nat}
    {bytes : List UInt8} {disk : Disk} {ref : String} (call : calls[i]? = some (bytes, disk))
    (returned : (store.putAll hash calls).1[i]? = some (some ref)) :
    Names hash (store.putAll hash calls).2 ref bytes := by
  induction calls generalizing store i with
  | nil => cases call
  | cons first calls inductionHypothesis =>
    cases i with
    | zero =>
      have this := Option.some.inj call
      rw [this] at returned ⊢
      exact (put_names (Option.some.inj returned)).later (putAll_extends _ calls)
    | succ i => exact inductionHypothesis call returned

theorem putAll_returns {store : BlobStore} {calls : List (List UInt8 × Disk)}
    (room : store.files.size + calls.length ≤ 2 ^ 32) (good : ∀ call ∈ calls, call.2 = {}) :
    ∀ returned ∈ (store.putAll hash calls).1, returned.isSome = true := by
  induction calls generalizing store with
  | nil =>
    intro _ member
    cases member
  | cons call calls inductionHypothesis =>
    rw [List.length_cons] at room
    have grown := size_put hash store call.2 call.1
    have later : ∀ returned ∈ ((store.put hash call.2 call.1).2.putAll hash calls).1,
        returned.isSome = true :=
      inductionHypothesis (by omega) (fun call member => good call (List.mem_cons_of_mem _ member))
    have here : (store.put hash call.2 call.1).1.isSome = true := by
      rw [good call List.mem_cons_self]
      exact put_returns hash _ (by omega)
    intro returned member
    cases List.mem_cons.mp member with
    | inl first => exact first ▸ here
    | inr rest => exact later returned rest

/-- Whatever the hash collides on and whatever the store held: every reference means the
content of its call, equal contents have one reference, and no call changes a file that is
there.  With the disk's answers good and names left, every call returns. -/
theorem putAll_exact (hash : List UInt8 → UInt64) (store : BlobStore)
    (calls : List (List UInt8 × Disk)) :
    (∀ (i : Nat) bytes disk ref, calls[i]? = some (bytes, disk) →
      (store.putAll hash calls).1[i]? = some (some ref) →
      (store.putAll hash calls).2.get ref = some bytes) ∧
    (∀ (i j : Nat) bytes disk disk' ref ref', calls[i]? = some (bytes, disk) →
      calls[j]? = some (bytes, disk') → (store.putAll hash calls).1[i]? = some (some ref) →
      (store.putAll hash calls).1[j]? = some (some ref') → ref = ref') ∧
    (∀ earlier later, calls = earlier ++ later →
      Extends (store.putAll hash calls).2.fetch (store.putAll hash earlier).2.fetch) ∧
    (store.files.size + calls.length ≤ 2 ^ 32 → (∀ call ∈ calls, call.2 = {}) →
      ∀ returned ∈ (store.putAll hash calls).1, returned.isSome = true) := by
  refine ⟨?_, ?_, ?_, fun room good => putAll_returns room good⟩
  · intro i bytes disk ref call returned
    exact (putAll_names call returned).get_eq
  · intro i j bytes disk disk' ref ref' call call' returned returned'
    exact (putAll_names call returned).unique (putAll_names call' returned')
  · intro earlier later split
    rw [split, putAll_append]
    exact putAll_extends _ later

/-- Two contents that collide, and the first again. -/
def colliding : List (List UInt8 × Disk) := [([1], {}), ([2], {}), ([1], {})]

theorem putAll_exact_colliding :
    (putAll (fun _ => 0) {} colliding).1 =
      [some "evald-blob:00000000000000010000000000000000",
        some "evald-blob:00000000000000010000000000000000-1",
        some "evald-blob:00000000000000010000000000000000"] ∧
    (putAll (fun _ => 0) {} colliding).2.get
      "evald-blob:00000000000000010000000000000000-1" = some [2] := by
  have refs : (putAll (fun _ => 0) {} colliding).1 =
      [some "evald-blob:00000000000000010000000000000000",
        some "evald-blob:00000000000000010000000000000000-1",
        some "evald-blob:00000000000000010000000000000000"] := by decide
  refine ⟨refs, (putAll_exact (fun _ => 0) {} colliding).1 1 [2] {} _ rfl ?_⟩
  rw [refs]
  rfl

end BlobStore

end Evald.Blob
