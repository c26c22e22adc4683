import Mathlib.Data.List.Basic

/-!
# Emulation prevention

The bytes of a raw byte sequence payload as they stand in a NAL unit: a byte `03` goes behind two zero bytes
where a byte of value 3 or less follows, so that no start code shows up inside the unit. Taking the inserted
bytes out again gives the payload back.
-/

namespace ProgrammingPath.Lib

/-- The payload from a byte on with `03` inserted, so many zero bytes standing in front since the last
insertion. -/
def nalFrom : Nat → List UInt8 → List UInt8
  | _, [] => []
  | zeros, b :: bs =>
    if zeros = 2 ∧ b ≤ 3 then 3 :: b :: nalFrom (if b = 0 then 1 else 0) bs
    else b :: nalFrom (if b = 0 then zeros + 1 else 0) bs

/-- The bytes of a NAL unit that carry a payload. -/
def nalOfRbsp (rbsp : List UInt8) : List UInt8 :=
  nalFrom 0 rbsp

/-- The bytes of a NAL unit from one on without the inserted ones, so many zero bytes standing in front
since the last of them. -/
def rbspFrom : Nat → List UInt8 → List UInt8
  | _, [] => []
  | zeros, b :: bs =>
    if 2 ≤ zeros ∧ b = 3 then rbspFrom 0 bs
    else b :: rbspFrom (if b = 0 then zeros + 1 else 0) bs

/-- The payload that the bytes of a NAL unit carry. -/
def rbspOfNal (nal : List UInt8) : List UInt8 :=
  rbspFrom 0 nal

theorem rbspFrom_nalFrom {zeros : Nat} (hz : zeros ≤ 2) (rbsp : List UInt8) :
    rbspFrom zeros (nalFrom zeros rbsp) = rbsp := by
  induction rbsp generalizing zeros with
  | nil => rfl
  | cons b bs ih =>
    rw [nalFrom]
    split
    · next h =>
      -- the inserted byte goes, and the count starts again
      rw [rbspFrom, if_pos ⟨Nat.le_of_eq h.1.symm, rfl⟩, rbspFrom,
        if_neg (fun h' => absurd h'.1 (by decide)), Nat.zero_add]
      congr 1
      apply ih
      split <;> decide
    · next h =>
      have hstay : ¬(2 ≤ zeros ∧ b = 3) := fun h' =>
        h ⟨Nat.le_antisymm hz h'.1, by rw [h'.2]; decide⟩
      rw [rbspFrom, if_neg hstay]
      congr 1
      apply ih
      split
      · next hb =>
        have : zeros ≠ 2 := fun hz2 => h ⟨hz2, by rw [hb]; decide⟩
        omega
      · exact Nat.zero_le 2

/-- Taking the inserted bytes out gives the payload back. -/
theorem rbspOfNal_nalOfRbsp (rbsp : List UInt8) : rbspOfNal (nalOfRbsp rbsp) = rbsp :=
  rbspFrom_nalFrom (Nat.zero_le 2) rbsp

/-- Nothing is taken away. -/
theorem length_le_nalFrom (zeros : Nat) (rbsp : List UInt8) :
    rbsp.length ≤ (nalFrom zeros rbsp).length := by
  induction rbsp generalizing zeros with
  | nil => exact Nat.le_refl _
  | cons b bs ih =>
    rw [nalFrom]
    split
    · have := ih (if b = 0 then 1 else 0)
      simp only [List.length_cons]
      omega
    · have := ih (if b = 0 then zeros + 1 else 0)
      simp only [List.length_cons]
      omega

end ProgrammingPath.Lib
