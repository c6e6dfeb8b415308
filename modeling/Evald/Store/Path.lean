import Evald.Model
import Evald.Lib.Digits

/-! # Where a block lives

A block's path relative to the data directory: its hour or day partition and its
stem.  The three stems are the ones a flush and the two merges write.  `render`
is the file name itself; `render_inj` says two blocks share a file only when they
are the same path, so a path stands for its file everywhere below.  Paths are
ordered as their file names are, which is the order the index lists them in.
-/

namespace Evald.Store

open Evald.Lib

/-- A day directory, `YYYY/MM/DD`. -/
structure Day where
  year : Nat
  month : Nat
  day : Nat
  deriving DecidableEq, Repr

/-- An hour partition, `YYYY/MM/DD/HH`. -/
structure Hour where
  day : Day
  hour : Nat
  deriving DecidableEq, Repr

inductive BlockPath where
  /-- `blocks/YYYY/MM/DD/HH/<seqno:020>-<idx>.parquet` -/
  | flush (hour : Hour) (seqno idx : Nat)
  /-- `blocks/YYYY/MM/DD/HH/merged-<lo:020>-<hi:020>.parquet` -/
  | merged (hour : Hour) (lo hi : Nat)
  /-- `blocks/YYYY/MM/DD/day-<lo:020>-<hi:020>.parquet` -/
  | day (day : Day) (lo hi : Nat)
  deriving DecidableEq, Repr

def Day.chars (d : Day) : List Char :=
  pad 4 d.year ++ '/' :: (pad 2 d.month ++ '/' :: pad 2 d.day)

def Day.render (d : Day) : String := String.ofList d.chars

def Hour.chars (h : Hour) : List Char := h.day.chars ++ '/' :: pad 2 h.hour

def Hour.render (h : Hour) : String := String.ofList h.chars

def dayChars (d : Day) (rest : List Char) : List Char :=
  "blocks/".toList ++ (pad 4 d.year ++ '/' :: (pad 2 d.month ++ '/' :: (pad 2 d.day ++ '/' :: rest)))

def hourChars (h : Hour) (rest : List Char) : List Char :=
  dayChars h.day (pad 2 h.hour ++ '/' :: rest)

def rangeChars (lo hi : Nat) : List Char :=
  pad 20 lo ++ '-' :: (pad 20 hi ++ ".parquet".toList)

def BlockPath.chars : BlockPath → List Char
  | .flush h seqno idx => hourChars h (pad 20 seqno ++ '-' :: (pad 0 idx ++ ".parquet".toList))
  | .merged h lo hi => hourChars h ("merged-".toList ++ rangeChars lo hi)
  | .day d lo hi => dayChars d ("day-".toList ++ rangeChars lo hi)

def BlockPath.render (p : BlockPath) : String := String.ofList p.chars

/-! ## Two paths never share a file -/

theorem dayChars_inj {d d' : Day} {rest rest' : List Char}
    (same : dayChars d rest = dayChars d' rest') : d = d' ∧ rest = rest' := by
  have body := List.append_cancel_left same
  obtain ⟨years, -, months⟩ := pad_split rfl rfl body
  obtain ⟨months, -, days⟩ := pad_split rfl rfl months
  obtain ⟨days, -, rests⟩ := pad_split rfl rfl days
  cases d
  cases d'
  simp_all

theorem hourChars_inj {h h' : Hour} {rest rest' : List Char}
    (same : hourChars h rest = hourChars h' rest') : h = h' ∧ rest = rest' := by
  obtain ⟨days, hours⟩ := dayChars_inj same
  obtain ⟨hours, -, rests⟩ := pad_split rfl rfl hours
  cases h
  cases h'
  simp_all

theorem rangeChars_inj {lo hi lo' hi' : Nat} (same : rangeChars lo hi = rangeChars lo' hi') :
    lo = lo' ∧ hi = hi' := by
  obtain ⟨lows, -, highs⟩ := pad_split rfl rfl same
  obtain ⟨highs, -, -⟩ := pad_split rfl rfl highs
  exact ⟨lows, highs⟩

theorem flush_stem_inj {seqno idx seqno' idx' : Nat}
    (same : pad 20 seqno ++ '-' :: (pad 0 idx ++ ".parquet".toList) =
      pad 20 seqno' ++ '-' :: (pad 0 idx' ++ ".parquet".toList)) :
    seqno = seqno' ∧ idx = idx' := by
  obtain ⟨seqnos, -, rest⟩ := pad_split rfl rfl same
  obtain ⟨idxs, -, -⟩ := pad_split rfl rfl rest
  exact ⟨seqnos, idxs⟩

theorem BlockPath.chars_inj {p q : BlockPath} (same : p.chars = q.chars) : p = q := by
  -- the stem and the depth tell the three kinds apart
  cases p with
  | flush h seqno idx =>
    cases q with
    | flush h' seqno' idx' =>
      obtain ⟨hours, stems⟩ := hourChars_inj same
      obtain ⟨seqnos, idxs⟩ := flush_stem_inj stems
      rw [hours, seqnos, idxs]
    | merged h' lo hi =>
      obtain ⟨-, stems⟩ := hourChars_inj same
      exact absurd stems (pad_append_ne rfl)
    | day d lo hi =>
      obtain ⟨-, hours⟩ := dayChars_inj same
      exact absurd hours (pad_append_ne rfl)
  | merged h lo hi =>
    cases q with
    | flush h' seqno idx =>
      obtain ⟨-, stems⟩ := hourChars_inj same
      exact absurd stems.symm (pad_append_ne rfl)
    | merged h' lo' hi' =>
      obtain ⟨hours, stems⟩ := hourChars_inj same
      obtain ⟨lows, highs⟩ := rangeChars_inj (List.append_cancel_left stems)
      rw [hours, lows, highs]
    | day d lo' hi' =>
      obtain ⟨-, hours⟩ := dayChars_inj same
      exact absurd hours (pad_append_ne rfl)
  | day d lo hi =>
    cases q with
    | flush h seqno idx =>
      obtain ⟨-, hours⟩ := dayChars_inj same
      exact absurd hours.symm (pad_append_ne rfl)
    | merged h lo' hi' =>
      obtain ⟨-, hours⟩ := dayChars_inj same
      exact absurd hours.symm (pad_append_ne rfl)
    | day d' lo' hi' =>
      obtain ⟨days, stems⟩ := dayChars_inj same
      obtain ⟨lows, highs⟩ := rangeChars_inj (List.append_cancel_left stems)
      rw [days, lows, highs]

theorem BlockPath.render_inj {p q : BlockPath} (same : p.render = q.render) : p = q :=
  BlockPath.chars_inj (String.ofList_injective same)

/-! ## The order of the file names -/

/-- Comparing by an injective name is comparing exactly. -/
theorem lawfulEq_compareOn {α β : Type} [Ord β] [Std.LawfulEqOrd β] {name : α → β}
    (injective : ∀ {a b}, name a = name b → a = b) : Std.LawfulEqCmp (compareOn name) where
  compare_self {a} := Std.LawfulEqOrd.compare_eq_iff_eq.mpr (rfl : name a = name a)
  eq_of_compare {a b} same := by
    have names : compare (name a) (name b) = .eq := same
    exact injective (Std.LawfulEqOrd.eq_of_compare names)

/-- The bytes of a file name are its characters: every one of them is ASCII. -/
instance : Ord BlockPath := ⟨compareOn BlockPath.chars⟩

instance : Std.TransOrd BlockPath := inferInstanceAs (Std.TransCmp (compareOn BlockPath.chars))

instance : Std.LawfulEqOrd BlockPath := lawfulEq_compareOn BlockPath.chars_inj

theorem Day.chars_inj {d d' : Day} (same : d.chars = d'.chars) : d = d' := by
  obtain ⟨years, -, rest⟩ := pad_split rfl rfl same
  obtain ⟨months, -, days⟩ := pad_split rfl rfl rest
  have days := pad_inj days
  cases d
  cases d'
  simp_all

theorem Hour.chars_inj {h h' : Hour} (same : h.chars = h'.chars) : h = h' := by
  simp only [Hour.chars, Day.chars, List.append_assoc, List.cons_append] at same
  obtain ⟨years, -, rest⟩ := pad_split rfl rfl same
  obtain ⟨months, -, rest⟩ := pad_split rfl rfl rest
  obtain ⟨days, -, hours⟩ := pad_split rfl rfl rest
  have hours := pad_inj hours
  obtain ⟨⟨_, _, _⟩, _⟩ := h
  obtain ⟨⟨_, _, _⟩, _⟩ := h'
  simp_all

instance : Ord Day := ⟨compareOn Day.chars⟩

instance : Std.TransOrd Day := inferInstanceAs (Std.TransCmp (compareOn Day.chars))

instance : Std.LawfulEqOrd Day := lawfulEq_compareOn Day.chars_inj

instance : Ord Hour := ⟨compareOn Hour.chars⟩

instance : Std.TransOrd Hour := inferInstanceAs (Std.TransCmp (compareOn Hour.chars))

instance : Std.LawfulEqOrd Hour := lawfulEq_compareOn Hour.chars_inj

/-! ## Partitions -/

/-- The civil date of a day counted from 1970-01-01, in the Gregorian calendar. -/
def civilFromDays (days : Nat) : Day :=
  let z := days + 719468
  let era := z / 146097
  let doe := z % 146097
  let yoe := (doe - doe / 1460 + doe / 36524 - doe / 146096) / 365
  let doy := doe - (365 * yoe + yoe / 4 - yoe / 100)
  let mp := (5 * doy + 2) / 153
  let month := if mp < 10 then mp + 3 else mp - 9
  { year := yoe + era * 400 + (if month ≤ 2 then 1 else 0)
    month := month
    day := doy - (153 * mp + 2) / 5 + 1 }

/-- UTC time-partition of a span's start time. -/
def partitionOf (startUnixNano : Nat) : Hour :=
  let secs := startUnixNano / 1000000000
  { day := civilFromDays (secs / 86400), hour := secs % 86400 / 3600 }

example : (partitionOf 1700000000000000000).render = "2023/11/14/22" := by decide

/-- Where a block sits in the partition tree. -/
inductive Slot where
  | hour (hour : Hour)
  | day (day : Day)
  deriving DecidableEq

def slotOf : BlockPath → Slot
  | .flush h _ _ => .hour h
  | .merged h _ _ => .hour h
  | .day d _ _ => .day d

/-- The day a block belongs to, whichever level it sits at. -/
def Slot.dayOf : Slot → Day
  | .hour h => h.day
  | .day d => d

/-- A day directory is closed once the UTC calendar has moved past it. -/
def dayIsClosed (day today : Day) : Bool :=
  compare day today = .lt

end Evald.Store
