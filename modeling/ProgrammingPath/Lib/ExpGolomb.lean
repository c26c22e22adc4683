import Mathlib.Algebra.Group.Nat.Defs

/-!
# Exp-Golomb codes

Numbers written as bits, most significant one first, one behind the other. A field has a number of bits that
both sides know; an exp-Golomb code begins with as many zero bits as there are behind its first one. A source
of bits is a function from places, and `BitsAt` says what it has from a place on.
-/

namespace ProgrammingPath.Lib

/-! ## Bits -/

/-- The lowest `n` bits of a number, the most significant one first. -/
def bitsOf : Nat → Nat → List Bool
  | 0, _ => []
  | n + 1, w => w.testBit n :: bitsOf n w

/-- The number that bits stand for behind those of `v`. -/
def bitsValue (v : Nat) (bits : List Bool) : Nat := bits.foldl (fun v b => 2 * v + b.toNat) v

/-- These bits are there from `p` on. -/
def BitsAt (bit : Nat → Bool) : Nat → List Bool → Prop
  | _, [] => True
  | p, b :: bits => bit p = b ∧ BitsAt bit (p + 1) bits

@[simp] theorem length_bitsOf (n w : Nat) : (bitsOf n w).length = n := by
  induction n with
  | zero => rfl
  | succ n ih => rw [bitsOf, List.length_cons, ih]

theorem bitsValue_concat (v : Nat) (bits : List Bool) (b : Bool) :
    bitsValue v (bits ++ [b]) = 2 * bitsValue v bits + b.toNat := by
  rw [bitsValue, bitsValue, List.foldl_append]
  rfl

/-- Reading a field. -/
theorem bitsValue_bitsOf (v n w : Nat) : bitsValue v (bitsOf n w) = v * 2 ^ n + w % 2 ^ n := by
  induction n generalizing v with
  | zero => rw [bitsOf, Nat.pow_zero, Nat.mul_one, Nat.mod_one]; rfl
  | succ n ih =>
    calc bitsValue v (bitsOf (n + 1) w)
        = bitsValue (2 * v + (w.testBit n).toNat) (bitsOf n w) := rfl
      _ = (2 * v + (w.testBit n).toNat) * 2 ^ n + w % 2 ^ n := ih _
      _ = v * 2 ^ (n + 1) + (w % 2 ^ n + 2 ^ n * (w / 2 ^ n % 2)) := by
        rw [Nat.toNat_testBit, Nat.add_mul, Nat.pow_succ, Nat.mul_comm 2 v, Nat.mul_assoc, Nat.mul_comm 2,
          Nat.add_assoc, Nat.mul_comm (w / 2 ^ n % 2), Nat.add_comm (2 ^ n * _)]
      _ = v * 2 ^ (n + 1) + w % 2 ^ (n + 1) := by rw [Nat.mod_pow_succ]

theorem bitsAt_append {bit : Nat → Bool} {p : Nat} {xs ys : List Bool} :
    BitsAt bit p (xs ++ ys) ↔ BitsAt bit p xs ∧ BitsAt bit (p + xs.length) ys := by
  induction xs generalizing p with
  | nil => exact (and_iff_right trivial).symm
  | cons x xs ih =>
    have hplace : p + 1 + xs.length = p + (x :: xs).length := by
      rw [List.length_cons]
      omega
    rw [List.cons_append, BitsAt, ih, hplace, BitsAt, and_assoc]

/-- The bits of a number are there when they are one by one. -/
theorem bitsAt_bitsOf {bit : Nat → Bool} {p n w : Nat} (h : ∀ i < n, bit (p + i) = w.testBit (n - 1 - i)) :
    BitsAt bit p (bitsOf n w) := by
  induction n generalizing p with
  | zero => trivial
  | succ n ih =>
    refine ⟨h 0 (Nat.succ_pos n), ih fun i hi => ?_⟩
    rw [Nat.add_assoc, Nat.add_comm 1, h (i + 1) (Nat.succ_lt_succ hi)]
    congr 1
    omega

/-! ## Codes -/

/-- The code of a number: `v + 1` from its first one bit on, with a zero bit in front for each further one. -/
def ueCode (v : Nat) : List Bool := List.replicate (v + 1).log2 false ++ bitsOf ((v + 1).log2 + 1) (v + 1)

/-- The number whose code is that of a number with a sign: the positive ones are the odd ones. -/
def seIndex (v : Int) : Nat := if 0 < v then (2 * v - 1).toNat else (-2 * v).toNat

def seCode (v : Int) : List Bool := ueCode (seIndex v)

theorem ueCode_eq (v : Nat) :
    ueCode v = List.replicate (v + 1).log2 false ++ true :: bitsOf (v + 1).log2 (v + 1) := by
  rw [ueCode, bitsOf, Nat.testBit_log2 (Nat.succ_ne_zero v)]

theorem length_ueCode (v : Nat) : (ueCode v).length = 2 * (v + 1).log2 + 1 := by
  rw [ueCode, List.length_append, List.length_replicate, length_bitsOf]
  omega

/-- What the bits behind the first one are worth. -/
theorem ueCode_value (v : Nat) : 2 ^ (v + 1).log2 - 1 + bitsValue 0 (bitsOf (v + 1).log2 (v + 1)) = v := by
  have hle : 2 ^ (v + 1).log2 ≤ v + 1 := Nat.log2_self_le (Nat.succ_ne_zero v)
  have hlt : v + 1 < 2 ^ (v + 1).log2 * 2 := Nat.lt_log2_self
  have hmod : (v + 1) % 2 ^ (v + 1).log2 = v + 1 - 2 ^ (v + 1).log2 := by
    rw [Nat.mod_eq_sub_mod hle, Nat.mod_eq_of_lt (by omega)]
  rw [bitsValue_bitsOf, hmod, Nat.zero_mul]
  have hpos : 0 < 2 ^ (v + 1).log2 := Nat.two_pow_pos _
  omega

theorem seIndex_eq_zero {v : Int} : seIndex v = 0 ↔ v = 0 := by
  rw [seIndex]
  split <;> omega

/-- Odd numbers are read as positive, even ones as negative. -/
theorem seIndex_cases (v : Int) :
    (∃ k : Nat, seIndex v = 2 * k + 1 ∧ v = k + 1) ∨ ∃ k : Nat, seIndex v = 2 * k ∧ v = -k := by
  rw [seIndex]
  split
  · exact .inl ⟨(v - 1).toNat, by omega, by omega⟩
  · exact .inr ⟨(-v).toNat, by omega, by omega⟩

end ProgrammingPath.Lib
