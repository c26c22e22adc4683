import Mathlib.Algebra.CharP.Two
import Mathlib.Algebra.Field.ZMod
import Mathlib.Algebra.Polynomial.Div

/-!
# Division of a bit string by a polynomial over two elements

`divide g r bits` is the shift register of `w` cells that divides by `x^w + g`: in each round the
register is shifted up by one bit, and `g` is added when the bit that falls out differs from the
bit read. Two facts are proved of it.

* The register is linear in its contents and the bits read together, so a round of several bits can
  be split into what the bits that fall out do and a plain shift (`divide_eq_xor_shiftLeft`). This
  is what a table of remainders rests on.
* What is left in an empty register after the bits of a message is the remainder of the message
  times `x^w` (`toPoly_divide`).
-/

namespace ProgrammingPath.Lib.BitDivision

variable {w : Nat} {g r s : BitVec w}

/-- One bit, the most significant one first: shift up, and take `x^w + g` away where it divides. -/
def bitStep (g r : BitVec w) (b : Bool) : BitVec w :=
  (r <<< 1) ^^^ (if r.msb ^^ b then g else 0)

/-- The register after all bits. -/
def divide (g r : BitVec w) (bits : List Bool) : BitVec w := bits.foldl (bitStep g) r

/-! ## Linearity -/

theorem ite_xor (p q : Bool) :
    (if p ^^ q then g else 0) = (if p then g else 0) ^^^ (if q then g else 0) := by
  cases p with
  | false => cases q with
    | false => simp
    | true => simp
  | true => cases q with
    | false => simp
    | true => simp

theorem bitStep_xor (r s : BitVec w) (b c : Bool) :
    bitStep g (r ^^^ s) (b ^^ c) = bitStep g r b ^^^ bitStep g s c := by
  unfold bitStep
  rw [BitVec.msb_xor, BitVec.shiftLeft_xor_distrib]
  have hbits : (r.msb ^^ s.msb ^^ (b ^^ c)) = ((r.msb ^^ b) ^^ (s.msb ^^ c)) := by
    cases r.msb with
    | false => cases s.msb with
      | false => simp
      | true => simp
    | true => cases s.msb with
      | false => simp
      | true => simp
  rw [hbits, ite_xor]
  ac_rfl

/-- What a second register adds when it reads nothing but zeros. -/
theorem divide_xor_zeros (r s : BitVec w) (bits : List Bool) :
    divide g (r ^^^ s) bits =
      divide g r (List.replicate bits.length false) ^^^ divide g s bits := by
  induction bits generalizing r s with
  | nil => rfl
  | cons b bits ih =>
    have hstep : bitStep g (r ^^^ s) b = bitStep g r false ^^^ bitStep g s b := by
      rw [← bitStep_xor, Bool.false_xor]
    show divide g (bitStep g (r ^^^ s) b) bits = _
    rw [hstep, ih]
    rfl

/-- A register that reads its own upper bits is shifted and nothing else: they cancel what falls
out. -/
theorem divide_upper (r : BitVec w) (k : Nat) :
    divide g r ((List.range k).map r.getMsbD) = r <<< k := by
  induction k with
  | zero => simp [divide]
  | succ k ih =>
    have hmsb : (r <<< k).msb = r.getMsbD k := by
      rw [BitVec.msb, BitVec.getMsbD_shiftLeft, Nat.zero_add]
    unfold divide at ih ⊢
    rw [List.range_succ, List.map_append, List.foldl_append, ih]
    show bitStep g (r <<< k) (r.getMsbD k) = r <<< (k + 1)
    rw [bitStep, hmsb, Bool.xor_self, BitVec.shiftLeft_add]
    simp

/-- Several bits at once. `s` is chosen so that the upper bits of `r` differ from those of `s` in
the bits read: then `s` alone decides what is added, and the rest is a shift. -/
theorem divide_eq_xor_shiftLeft {bits : List Bool}
    (hbits : bits = (List.range bits.length).map (r ^^^ s).getMsbD) :
    divide g r bits =
      divide g s (List.replicate bits.length false) ^^^ ((r ^^^ s) <<< bits.length) := by
  have hr : r = s ^^^ (r ^^^ s) := by
    rw [BitVec.xor_comm r s, ← BitVec.xor_assoc, BitVec.xor_self, BitVec.zero_xor]
  have hupper : divide g (r ^^^ s) bits = (r ^^^ s) <<< bits.length :=
    (congrArg (divide g (r ^^^ s)) hbits).trans (divide_upper _ _)
  exact (congrArg (fun r => divide g r bits) hr).trans
    ((divide_xor_zeros _ _ _).trans (congrArg _ hupper))

/-! ## The remainder -/

open Polynomial

/-- A bit as a coefficient. -/
def coef (b : Bool) : ZMod 2 := if b then 1 else 0

theorem coef_xor (b c : Bool) : coef (b ^^ c) = coef b + coef c := by
  cases b with
  | false => cases c with
    | false => rfl
    | true => rfl
  | true => cases c with
    | false => rfl
    | true => rfl

/-- The polynomial whose coefficients are the bits of a register. -/
noncomputable def toPoly (r : BitVec w) : (ZMod 2)[X] :=
  ∑ i ∈ Finset.range w, C (coef (r.getLsbD i)) * X ^ i

/-- The polynomial whose coefficients are the bits of a message, the highest one first. -/
noncomputable def message (bits : List Bool) : (ZMod 2)[X] :=
  bits.foldl (fun p b => X * p + C (coef b)) 0

/-- The polynomial a register with the feedback `g` divides by. -/
noncomputable def divisor (g : BitVec w) : (ZMod 2)[X] := X ^ w + toPoly g

theorem coeff_toPoly (r : BitVec w) (i : Nat) : (toPoly r).coeff i = coef (r.getLsbD i) := by
  simp only [toPoly, finsetSum_coeff, coeff_C_mul_X_pow]
  rw [Finset.sum_ite_eq (Finset.range w) i]
  split
  · rfl
  · next hi =>
    rw [Finset.mem_range, not_lt] at hi
    rw [BitVec.getLsbD_of_ge r i hi]
    rfl

theorem toPoly_xor (r s : BitVec w) : toPoly (r ^^^ s) = toPoly r + toPoly s := by
  ext i
  rw [coeff_add, coeff_toPoly, coeff_toPoly, coeff_toPoly, BitVec.getLsbD_xor, coef_xor]

@[simp] theorem toPoly_zero : toPoly 0#w = 0 := by
  ext i
  rw [coeff_toPoly]
  simp [coef]

/-- Shifting up multiplies by `x`, up to the bit that falls out. -/
theorem toPoly_shiftLeft_one (hw : 0 < w) (r : BitVec w) :
    toPoly (r <<< 1) + C (coef r.msb) * X ^ w = X * toPoly r := by
  ext i
  rw [coeff_add, coeff_C_mul_X_pow, coeff_toPoly, BitVec.getLsbD_shiftLeft]
  cases i with
  | zero =>
    have hne : (0 : Nat) ≠ w := by omega
    simp [hne, coef]
  | succ i =>
    rw [coeff_X_mul, coeff_toPoly, BitVec.msb_eq_getLsbD_last]
    obtain hlt | heq | hgt := Nat.lt_trichotomy (i + 1) w
    · simp [hlt, Nat.ne_of_lt hlt]
    · have hi : w - 1 = i := by omega
      simp [heq, hi, coef]
    · have hne : i + 1 ≠ w := by omega
      have hout : r.getLsbD i = false := BitVec.getLsbD_of_ge r i (by omega)
      simp [hne, hout, coef]

theorem degree_toPoly_lt (r : BitVec w) : (toPoly r).degree < w := by
  rw [degree_lt_iff_coeff_zero]
  intro i hi
  rw [coeff_toPoly, BitVec.getLsbD_of_ge r i hi]
  rfl

theorem monic_divisor (g : BitVec w) : (divisor g).Monic :=
  monic_X_pow_add (degree_toPoly_lt g)

theorem degree_divisor (g : BitVec w) : (divisor g).degree = w := by
  have hlt : (toPoly g).degree < ((X : (ZMod 2)[X]) ^ w).degree := by
    rw [degree_X_pow]
    exact degree_toPoly_lt g
  rw [divisor, degree_add_eq_left_of_degree_lt hlt, degree_X_pow]

/-- One round: the polynomial of the register is multiplied by `x`, the bit is added at the top,
and the divisor is taken away when the top coefficient is not zero. -/
theorem toPoly_bitStep (hw : 0 < w) (r : BitVec w) (b : Bool) :
    X * toPoly r + C (coef b) * X ^ w =
      C (coef (r.msb ^^ b)) * divisor g + toPoly (bitStep g r b) := by
  have hadd : toPoly (bitStep g r b) =
      toPoly (r <<< 1) + C (coef (r.msb ^^ b)) * toPoly g := by
    rw [bitStep, toPoly_xor]
    cases r.msb ^^ b with
    | false => simp [coef]
    | true => simp [coef]
  -- the feedback is added twice, which is nothing
  have htwice : C (coef (r.msb ^^ b)) * toPoly g + C (coef (r.msb ^^ b)) * toPoly g = 0 :=
    CharTwo.add_self_eq_zero _
  rw [hadd, ← toPoly_shiftLeft_one hw, divisor, mul_add]
  calc toPoly (r <<< 1) + C (coef r.msb) * X ^ w + C (coef b) * X ^ w
      = toPoly (r <<< 1) + C (coef (r.msb ^^ b)) * X ^ w := by
        rw [coef_xor, C_add, add_mul, add_assoc]
    _ = toPoly (r <<< 1) + C (coef (r.msb ^^ b)) * X ^ w +
          (C (coef (r.msb ^^ b)) * toPoly g + C (coef (r.msb ^^ b)) * toPoly g) := by
        rw [htwice, add_zero]
    _ = _ := by ring

theorem message_concat (bits : List Bool) (b : Bool) :
    message (bits ++ [b]) = X * message bits + C (coef b) := by
  simp [message]

/-- The register is a remainder, with the quotient that the rounds have collected. -/
theorem exists_quotient (hw : 0 < w) (g : BitVec w) (bits : List Bool) :
    ∃ q, toPoly (divide g 0 bits) + divisor g * q = message bits * X ^ w := by
  induction bits using List.reverseRecOn with
  | nil => exact ⟨0, by simp [divide, message]⟩
  | append_singleton bits b ih =>
    obtain ⟨q, hq⟩ := ih
    have hround := toPoly_bitStep (g := g) hw (divide g 0 bits) b
    have hdiv : divide g 0 (bits ++ [b]) = bitStep g (divide g 0 bits) b := by
      simp [divide]
    refine ⟨X * q + C (coef ((divide g 0 bits).msb ^^ b)), ?_⟩
    calc toPoly (divide g 0 (bits ++ [b])) +
          divisor g * (X * q + C (coef ((divide g 0 bits).msb ^^ b)))
        = X * (divisor g * q) + (C (coef ((divide g 0 bits).msb ^^ b)) * divisor g +
            toPoly (bitStep g (divide g 0 bits) b)) := by
          rw [hdiv]
          ring
      _ = X * (toPoly (divide g 0 bits) + divisor g * q) + C (coef b) * X ^ w := by
          rw [← hround]
          ring
      _ = message (bits ++ [b]) * X ^ w := by
          rw [hq, message_concat]
          ring

/-- The register holds the remainder of the message times `x^w`. -/
theorem toPoly_divide (hw : 0 < w) (g : BitVec w) (bits : List Bool) :
    toPoly (divide g 0 bits) = (message bits * X ^ w) %ₘ divisor g := by
  obtain ⟨q, hq⟩ := exists_quotient hw g bits
  have hlt : (toPoly (divide g 0 bits)).degree < (divisor g).degree := by
    rw [degree_divisor]
    exact degree_toPoly_lt _
  exact ((div_modByMonic_unique q _ (monic_divisor g) ⟨hq, hlt⟩).2).symm

end ProgrammingPath.Lib.BitDivision
