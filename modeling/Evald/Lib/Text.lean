import Mathlib

/-! # Text

The string operations of the source language that are not Lean's own, over the
characters of a string.
-/

namespace Evald.Lib

/-- The bytes of a text. -/
def utf8 (s : String) : List UInt8 := s.toUTF8.data.toList

def startsWith (s start : String) : Bool := start.toList.isPrefixOf s.toList

/-- What follows `start`, when the text starts with it. -/
def stripPrefix (s start : String) : Option String :=
  if start.toList.isPrefixOf s.toList then
    some (String.ofList (s.toList.drop start.toList.length))
  else none

/-- Does `pattern` occur anywhere? -/
def containsText (s pattern : String) : Bool :=
  s.toList.tails.any (fun tail => pattern.toList.isPrefixOf tail)

/-- Around the first `separator`. -/
def splitOnce (s : String) (separator : Char) : Option (String × String) :=
  if separator ∈ s.toList then
    some (String.ofList (s.toList.takeWhile (· ≠ separator)),
      String.ofList ((s.toList.dropWhile (· ≠ separator)).tail))
  else none

/-- Around the last `separator`. -/
def rsplitOnce (s : String) (separator : Char) : Option (String × String) :=
  if separator ∈ s.toList then
    some (String.ofList ((s.toList.reverse.dropWhile (· ≠ separator)).tail.reverse),
      String.ofList (s.toList.reverse.takeWhile (· ≠ separator)).reverse)
  else none

def asciiLowercase (s : String) : String := String.ofList (s.toList.map Char.toLower)

def eqIgnoreAsciiCase (a b : String) : Bool := asciiLowercase a = asciiLowercase b

/-- The characters Unicode calls white space. -/
def isWhitespace (c : Char) : Bool :=
  let n := c.toNat
  (9 ≤ n && n ≤ 13) || n = 32 || n = 0x85 || n = 0xA0 || n = 0x1680 ||
    (0x2000 ≤ n && n ≤ 0x200A) || n = 0x2028 || n = 0x2029 || n = 0x202F || n = 0x205F ||
    n = 0x3000

/-- Without the white space at either end. -/
def trim (s : String) : String :=
  String.ofList ((s.toList.dropWhile isWhitespace).reverse.dropWhile isWhitespace).reverse

def stripCarriageReturn (line : List Char) : List Char :=
  if line.getLast? = some '\r' then line.dropLast else line

/-- The lines of a text, each without its `\n` or `\r\n`. -/
def lines (s : String) : List String :=
  let parts := s.toList.splitOn '\n'
  -- what follows the last line end is a line of its own unless it is empty
  let rest := parts.getLast?.filter (fun line => !line.isEmpty)
  (parts.dropLast.map stripCarriageReturn ++ rest.toList).map String.ofList

/-- Decimal digits and nothing else, at least one. -/
def parseDigits (digits : List Char) : Option Nat :=
  if !digits.isEmpty && digits.all Char.isDigit then some (Nat.ofDigitChars 10 digits 0) else none

/-- An unsigned number of 64 bits; a leading `+` is read. -/
def parseU64 (s : String) : Option Nat :=
  let number :=
    match s.toList with
    | '+' :: rest => parseDigits rest
    | digits => parseDigits digits
  number.filter (fun n => n < 2 ^ 64)

/-- A signed number of 64 bits; a leading sign is read. -/
def parseI64 (s : String) : Option ℤ :=
  let number :=
    match s.toList with
    | '+' :: rest => (parseDigits rest).map Int.ofNat
    | '-' :: rest => (parseDigits rest).map (fun n => -Int.ofNat n)
    | digits => (parseDigits digits).map Int.ofNat
  number.filter (fun n => -2 ^ 63 ≤ n ∧ n < 2 ^ 63)

/-- The bits of an unsigned number of 64 bits, read as a signed one. -/
def asI64 (n : Nat) : ℤ := if n < 2 ^ 63 then n else (n : ℤ) - 2 ^ 64

/-- Addition of unsigned 64-bit numbers wraps. -/
def wrappingAdd (a b : Nat) : Nat := (a + b) % 2 ^ 64

def saturatingMul (a b : Nat) : Nat := min (a * b) (2 ^ 64 - 1)

/-! ## Hexadecimal -/

def hexDigit (n : Nat) : Char := if n < 10 then Char.ofNat (48 + n) else Char.ofNat (87 + n)

def hexByte (b : UInt8) : List Char := [hexDigit (b.toNat / 16), hexDigit (b.toNat % 16)]

/-- Lowercase hexadecimal, two digits a byte. -/
def hexEncode (bytes : List UInt8) : String := String.ofList (bytes.flatMap hexByte)

theorem hexDigit_inj {a b : Nat} (small : a < 16) (small' : b < 16)
    (same : hexDigit a = hexDigit b) : a = b := by
  have table : ∀ x < 16, ∀ y < 16, hexDigit x = hexDigit y → x = y := by decide
  exact table a small b small' same

theorem hexByte_inj {a b : UInt8} (same : hexByte a = hexByte b) : a = b := by
  simp only [hexByte, List.cons.injEq, and_true] at same
  have small := a.toNat_lt
  have small' := b.toNat_lt
  have high := hexDigit_inj (by omega) (by omega) same.1
  have low := hexDigit_inj (by omega) (by omega) same.2
  apply UInt8.toNat_inj.mp
  omega

theorem hexBytes_inj {a b : List UInt8} (same : a.flatMap hexByte = b.flatMap hexByte) :
    a = b := by
  induction a generalizing b with
  | nil =>
    cases b with
    | nil => rfl
    | cons y ys => simp [hexByte] at same
  | cons x xs inductionHypothesis =>
    cases b with
    | nil => simp [hexByte] at same
    | cons y ys =>
      rw [List.flatMap_cons, List.flatMap_cons] at same
      obtain ⟨head, tail⟩ := List.append_inj same rfl
      rw [hexByte_inj head, inductionHypothesis tail]

theorem hexEncode_inj {a b : List UInt8} (same : hexEncode a = hexEncode b) : a = b :=
  hexBytes_inj (String.ofList_injective same)

/-! ## Facts -/

theorem stripPrefix_eq_some {s start rest : String} :
    stripPrefix s start = some rest ↔ s = start ++ rest := by
  unfold stripPrefix
  rw [← String.toList_inj, String.toList_append]
  split
  · next isPrefix =>
    obtain ⟨tail, whole⟩ := List.isPrefixOf_iff_prefix.mp isPrefix
    rw [← whole, List.drop_left, Option.some.injEq, ← String.toList_inj, String.toList_ofList,
      List.append_cancel_left_eq]
  · next noPrefix =>
    rw [List.isPrefixOf_iff_prefix] at noPrefix
    constructor
    · intro impossible
      cases impossible
    · intro whole
      exact absurd ⟨_, whole.symm⟩ noPrefix

theorem startsWith_append (start rest : String) : startsWith (start ++ rest) start = true := by
  simp [startsWith, List.isPrefixOf_iff_prefix]

end Evald.Lib
