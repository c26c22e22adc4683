import Mathlib.Data.List.TakeWhile

/-!
# Qt's byte arrays and strings

`QByteArray` is a list of bytes; the operations below follow the documented behaviour of the Qt 4
class. Reading through `operator[]` of a non-constant array goes through `QByteRef`, which yields
`0` past the end, so out-of-range reads are `0` here as well.

A `QString` that comes off the wire is kept as the bytes of its text in the C-string codec the
program installs: the conversion from a byte array stops at the first zero byte.
-/

namespace ProgrammingPath.Qt

abbrev QByteArray := List UInt8

abbrev QString := List UInt8

namespace QByteArray

/-- `a[i]`, with `0` for an index outside the array. -/
def byteAt (a : QByteArray) (i : Int) : UInt8 :=
  if i < 0 then 0 else a.getD i.toNat 0

/-- `a.mid(pos, len)`: a negative `len` means "to the end". -/
def mid (a : QByteArray) (pos len : Int) : QByteArray :=
  if (a.length : Int) ≤ pos then []
  else if len < 0 then a.drop pos.toNat
  else (a.drop pos.toNat).take len.toNat

/-- Conversion to a string: the text ends at the first zero byte. -/
def toQString (a : QByteArray) : QString := a.takeWhile (· ≠ 0)

/-! ### Text fields -/

/-- Zeros behind a text are not part of it. -/
theorem toQString_append_zeros (a : QByteArray) (n : Nat) :
    toQString (a ++ List.replicate n 0) = toQString a := by
  induction a with
  | nil => cases n <;> simp [toQString, List.replicate_succ]
  | cons b a ih =>
    unfold toQString at ih ⊢
    rw [List.cons_append, List.takeWhile_cons, List.takeWhile_cons, ih]

theorem toQString_of_notMem {a : QByteArray} (h : (0 : UInt8) ∉ a) : toQString a = a := by
  unfold toQString
  rw [List.takeWhile_eq_self_iff]
  intro b hb
  exact decide_eq_true (fun h0 => h (h0 ▸ hb))

theorem ne_zero_of_mem_toQString {a : QByteArray} {b : UInt8} (h : b ∈ toQString a) : b ≠ 0 := by
  have hall := List.mem_takeWhile_imp h
  exact of_decide_eq_true hall

end QByteArray

/-- Two bytes, low byte first, both unsigned. -/
def leWord (lo hi : UInt8) : Nat := hi.toNat * 256 + lo.toNat

theorem leWord_ofNat {n : Nat} (h : n < 65536) :
    leWord (UInt16.ofNat n).toUInt8 (UInt16.ofNat n >>> 8).toUInt8 = n := by
  have h16 : n % 65536 = n := Nat.mod_eq_of_lt h
  simp only [leWord, UInt16.toNat_toUInt8, UInt16.toNat_ofNat', UInt16.toNat_shiftRight]
  simp [h16, Nat.shiftRight_eq_div_pow]
  omega

end ProgrammingPath.Qt
