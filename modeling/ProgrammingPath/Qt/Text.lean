import Mathlib.Data.List.Basic
import ProgrammingPath.Qt.ByteArray

/-!
# Qt's strings, their codec, and dates

The program installs GB2312 as the codec of its C strings (`main.cpp`). A character below `0x80` is
one byte in it, every other character it has is two bytes, and a character it does not have is
written as a question mark. The table itself is a parameter, the structure `Gb2312`.

A `QString` of the program is a list of UTF-16 units when its characters matter; elsewhere it is
kept as the bytes of its text, and `QString.size` counts the characters in them.
-/

namespace ProgrammingPath.Qt

/-! ## The codec -/

/-- The two-byte characters of GB2312. -/
structure Gb2312 where
  toPair : UInt16 → Option (UInt8 × UInt8)
  ofPair : UInt8 → UInt8 → UInt16
  /-- the first of two bytes is none that stands alone -/
  lead : ∀ c a b, toPair c = some (a, b) → 0x80 ≤ a

namespace Gb2312

variable (codec : Gb2312)

/-- The bytes of one character. -/
def charToAscii (c : UInt16) : QByteArray :=
  if c < 0x80 then [c.toUInt8]
  else
    match codec.toPair c with
    | some (a, b) => [a, b]
    | none => [0x3F]

/-- `QString::toAscii`. -/
def toAscii (s : List UInt16) : QByteArray := s.flatMap codec.charToAscii

/-- `QString::fromAscii`, for the bytes before the first zero byte. -/
def fromAscii : QByteArray → List UInt16
  | [] => []
  | a :: rest =>
    if a < 0x80 then a.toUInt16 :: fromAscii rest
    else
      match rest with
      | [] => [0xFFFD]
      | b :: rest => codec.ofPair a b :: fromAscii rest

end Gb2312

/-- The number of characters of a text given by its bytes (`QString::length`). -/
def QString.size : QString → Nat
  | [] => 0
  | a :: rest =>
    if a < 0x80 then size rest + 1
    else
      match rest with
      | [] => 1
      | _ :: rest => size rest + 1

/-- Every character is one byte. -/
def QString.Ascii (s : QString) : Prop := ∀ b ∈ s, b < 0x80

instance (s : QString) : Decidable s.Ascii := inferInstanceAs (Decidable (∀ b ∈ s, _))

/-- Bytes that need a second one to make a character. -/
def QString.excess (s : QString) : Nat := s.length - s.size

namespace QString

variable {s : QString}

theorem size_cons_of_lt {a : UInt8} (h : a < 0x80) : size (a :: s) = size s + 1 := by
  rw [size.eq_def]
  exact if_pos h

theorem size_le_length : ∀ s : QString, s.size ≤ s.length
  | [] => Nat.le_refl _
  | [a] => by
    unfold size
    split
    · exact Nat.le_refl 1
    · exact Nat.le_refl 1
  | a :: b :: rest => by
    have hrest := size_le_length rest
    have htail := size_le_length (b :: rest)
    rw [size]
    split
    · simp only [List.length_cons] at htail ⊢
      omega
    · simp only [List.length_cons]
      omega

end QString

namespace Gb2312

variable {codec : Gb2312}

theorem size_charToAscii_append (c : UInt16) (s : QString) :
    QString.size (codec.charToAscii c ++ s) = QString.size s + 1 := by
  unfold charToAscii
  split
  · next hc =>
    have hlt : c.toUInt8 < 0x80 := by
      rw [UInt16.lt_iff_toNat_lt] at hc
      rw [UInt8.lt_iff_toNat_lt, UInt16.toNat_toUInt8]
      have h80 : (0x80 : UInt16).toNat = 128 := rfl
      have h80' : (0x80 : UInt8).toNat = 128 := rfl
      omega
    exact QString.size_cons_of_lt hlt
  · split
    · next a b hpair =>
      have hlead := codec.lead c a b hpair
      show QString.size (a :: b :: s) = _
      rw [QString.size, if_neg (UInt8.not_lt.mpr hlead)]
    · exact QString.size_cons_of_lt (by decide)

/-- Counting in the bytes counts the characters. -/
theorem size_toAscii (s : List UInt16) : QString.size (codec.toAscii s) = s.length := by
  induction s with
  | nil => rfl
  | cons c s ih =>
    rw [toAscii, List.flatMap_cons, size_charToAscii_append, List.length_cons]
    exact congrArg (· + 1) ih

end Gb2312

/-! ## Byte arrays -/

/-- `a.replace(0, len, after)`: the first `len` bytes are removed, as far as they exist. -/
def QByteArray.replaceFront (a : QByteArray) (len : Nat) (after : QByteArray) : QByteArray :=
  after ++ a.drop len

/-! ## Dates -/

/-- A valid date and time. -/
structure DateTime where
  year : Nat
  month : Nat
  day : Nat
  hour : Nat
  minute : Nat
  second : Nat
  valid : (1 ≤ month ∧ month ≤ 12) ∧ (1 ≤ day ∧ day ≤ 31) ∧ hour < 24 ∧ minute < 60 ∧ second < 60
  deriving DecidableEq, Repr

/-- `QDateTime`; `none` is the null one. -/
abbrev QDateTime := Option DateTime

/-- The number that a text of digits says. -/
def digits (s : QString) : Option Nat :=
  if s.all (fun b => 0x30 ≤ b && b ≤ 0x39) then
    some (s.foldl (fun n b => 10 * n + (b.toNat - 0x30)) 0)
  else none

/-- The length of a month. -/
def daysInMonth (year month : Nat) : Nat :=
  if month = 2 then
    if year % 4 = 0 ∧ (year % 100 ≠ 0 ∨ year % 400 = 0) then 29 else 28
  else if month = 4 ∨ month = 6 ∨ month = 9 ∨ month = 11 then 30 else 31

/-- `MESTool::QStringToDateTime`, that is `QDateTime::fromString` with the format
`yyyy-MM-dd hh:mm:ss`. -/
def qstringToDateTime (s : QString) : QDateTime := do
  let year ← digits (s.take 4)
  let month ← digits ((s.drop 5).take 2)
  let day ← digits ((s.drop 8).take 2)
  let hour ← digits ((s.drop 11).take 2)
  let minute ← digits ((s.drop 14).take 2)
  let second ← digits ((s.drop 17).take 2)
  let separators := [s.getD 4 0, s.getD 7 0, s.getD 10 0, s.getD 13 0, s.getD 16 0]
  if h : ((1 ≤ month ∧ month ≤ 12) ∧ (1 ≤ day ∧ day ≤ 31) ∧ hour < 24 ∧ minute < 60 ∧ second < 60) ∧
      s.length = 19 ∧ separators = [0x2D, 0x2D, 0x20, 0x3A, 0x3A] ∧
      day ≤ daysInMonth year month then
    some ⟨year, month, day, hour, minute, second, h.1⟩
  else none

end ProgrammingPath.Qt
