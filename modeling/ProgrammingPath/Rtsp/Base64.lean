import ProgrammingPath.Lib.CString
import ProgrammingPath.Lib.Memory

/-!
# `base64_decode`

Four characters give three bytes, and the caller gives an array of three bytes for every whole four characters. The
decoder stays inside just when no character that counts lies behind the last whole four.
-/

namespace ProgrammingPath.Rtsp

open ProgrammingPath.Lib

/-! ## The decoder -/

/-- `base64de`, from `+` to `z`. -/
def base64de : List Int :=
  [62, -1, -1, -1, 63, 52, 53, 54, 55, 56, 57, 58, 59, 60, 61, -1, -1, -1, -1, -1, -1, -1, 0, 1, 2, 3, 4, 5, 6, 7, 8, 9,
    10, 11, 12, 13, 14, 15, 16, 17, 18, 19, 20, 21, 22, 23, 24, 25, -1, -1, -1, -1, -1, -1, 26, 27, 28, 29, 30, 31, 32,
    33, 34, 35, 36, 37, 38, 39, 40, 41, 42, 43, 44, 45, 46, 47, 48, 49, 50, 51]

/-- The value of a character; those from 128 on are below zero and so below `+`. -/
def base64Value (ch : UInt8) : Option Nat :=
  if ch < 43 ∨ 122 < ch then none
  else
    let c := base64de.getD (ch.toNat - 43) (-1)
    if c = -1 then none else some c.toNat

/-- `BASE64_DECODE_OUT_SIZE`. -/
def base64DecodeOutSize (s : Nat) : Nat := s / 4 * 3

/-- `out[j] = b` in an array of so many bytes. -/
def store (size : Nat) (out : Mem) (j b : Nat) : Option Mem :=
  if j < size then some (out.write j [UInt8.ofNat b]) else none

/-- One turn of `switch (s)`: the array and `j` afterwards. -/
def base64Turn (str : List UInt8) (size i c j : Nat) (out : Mem) : Option (Mem × Nat) :=
  let inlen := str.length
  match i % 4 with
  | 0 => (store size out j (c * 4)).map fun out => (out, j)
  | 1 => do
    let out ← store size out j ((out j).toNat + c / 16 % 4)
    -- the lengths have no sign, so that `inlen - 3` is large when there are less than three characters
    if inlen < 3 ∨ i < inlen - 3 ∨ str.getD (inlen - 2) 0 ≠ 61 then
      (store size out (j + 1) (c % 16 * 16)).map fun out => (out, j + 1)
    else some (out, j + 1)
  | 2 => do
    let out ← store size out j ((out j).toNat + c / 4 % 16)
    if inlen < 2 ∨ i < inlen - 2 ∨ str.getD (inlen - 1) 0 ≠ 61 then
      (store size out (j + 1) (c % 4 * 64)).map fun out => (out, j + 1)
    else some (out, j + 1)
  | _ => (store size out j ((out j).toNat + c)).map fun out => (out, j + 1)

/-- The loop of `base64_decode` over so many characters from `i` on: the array and the length that is returned, or
`BASE64_INVALID`. -/
def base64Loop (str : List UInt8) (size : Nat) : Nat → Nat → Nat → Mem → Option (Mem × Nat)
  | 0, _, j, out => some (out, j)
  | left + 1, i, j, out =>
    if str.getD i 0 = 61 then some (out, j)
    else
      match base64Value (str.getD i 0) with
      | none => some (out, 1)
      | some c => do
        let (out, j) ← base64Turn str size i c j out
        base64Loop str size left (i + 1) j out

/-- `base64_decode` into an array of `BASE64_DECODE_OUT_SIZE`; `none` when it writes behind its end. -/
def base64Decode (str : List UInt8) (out : Mem) : Option (Mem × Nat) :=
  base64Loop str (base64DecodeOutSize str.length) str.length 0 0 out

/-! ## When it stays inside -/

/-- How many characters in front count. -/
def base64Length (str : List UInt8) : Nat := (str.takeWhile fun ch => (base64Value ch).isSome).length

section

variable {str : List UInt8} {size i j c left : Nat} {out : Mem}

/-- Where `j` is when the character at `i` comes. -/
def base64Place (i : Nat) : Nat := i / 4 * 3 + (i % 4 - 1)

/-- The first character of four completes no byte. -/
theorem base64Place_succ (i : Nat) :
    base64Place (i + 1) = if i % 4 = 0 then base64Place i else base64Place i + 1 := by
  rw [base64Place, base64Place]
  split
  · omega
  · omega

theorem store_eq {b : Nat} (h : j < size) : store size out j b = some (out.write j [UInt8.ofNat b]) := if_pos h

/-- A character of a whole four writes inside. -/
theorem base64Turn_isSome (str : List UInt8) (hsize : i / 4 * 3 + 3 ≤ size) (c : Nat) (out : Mem) :
    ∃ out', base64Turn str size i c (base64Place i) out = some (out', base64Place (i + 1)) := by
  have hin : base64Place i < size := by
    rw [base64Place]
    omega
  have hcases : i % 4 = 0 ∨ i % 4 = 1 ∨ i % 4 = 2 ∨ i % 4 = 3 := by omega
  have hnext (h : i % 4 = 1 ∨ i % 4 = 2) : base64Place i + 1 < size := by
    rw [base64Place]
    omega
  rw [base64Place_succ]
  rcases hcases with h | h | h | h
  · simp only [base64Turn, h, store_eq hin, Option.map_some, if_true]
    exact ⟨_, rfl⟩
  · simp only [base64Turn, h, store_eq hin, store_eq (hnext (Or.inl h)), Option.bind_eq_bind, Option.bind_some,
      Option.map_some]
    split
    · exact ⟨_, rfl⟩
    · exact ⟨_, rfl⟩
  · simp only [base64Turn, h, store_eq hin, store_eq (hnext (Or.inr h)), Option.bind_eq_bind, Option.bind_some,
      Option.map_some]
    split
    · exact ⟨_, rfl⟩
    · exact ⟨_, rfl⟩
  · simp only [base64Turn, h, store_eq hin, Option.map_some]
    exact ⟨_, rfl⟩

/-- The first character behind the last whole four does not. -/
theorem base64Turn_eq_none (str : List UInt8) (hfour : i % 4 = 0) (hsize : size ≤ i / 4 * 3) (c : Nat) (out : Mem) :
    base64Turn str size i c (base64Place i) out = none := by
  have hout : ¬base64Place i < size := by
    rw [base64Place]
    omega
  simp only [base64Turn, hfour]
  rw [store, if_neg hout, Option.map_none]

theorem base64Loop_isSome_iff (rest : List UInt8) (hrest : rest = str.drop i) (hi : i ≤ str.length / 4 * 4) (out : Mem) :
    (base64Loop str (base64DecodeOutSize str.length) rest.length i (base64Place i) out).isSome = true ↔
      i + base64Length rest ≤ str.length / 4 * 4 := by
  induction rest generalizing i out with
  | nil =>
    rw [List.length_nil, base64Loop, base64Length, List.takeWhile_nil, List.length_nil, Nat.add_zero]
    exact iff_of_true rfl hi
  | cons ch rest ih =>
    have hlt : i < str.length := by
      by_contra hle
      rw [List.drop_eq_nil_of_le (by omega)] at hrest
      cases hrest
    rw [List.drop_eq_getElem_cons hlt] at hrest
    obtain ⟨rfl, hnext⟩ := List.cons.inj hrest
    have hchar : str.getD i 0 = str[i] := List.getD_eq_getElem _ _ hlt
    rw [List.length_cons, base64Loop, hchar, base64Length, List.takeWhile_cons]
    by_cases hpad : str[i] = 61
    · have hnone : (base64Value str[i]).isSome = false := by rw [hpad]; rfl
      rw [if_pos hpad, hnone, if_neg Bool.false_ne_true, List.length_nil, Nat.add_zero]
      exact iff_of_true rfl hi
    · rw [if_neg hpad]
      cases hvalue : base64Value str[i] with
      | none =>
        rw [if_neg (by simp), List.length_nil, Nat.add_zero]
        exact iff_of_true rfl hi
      | some c =>
        rw [if_pos (by simp), List.length_cons]
        by_cases hfour : i < str.length / 4 * 4
        · have hsize : i / 4 * 3 + 3 ≤ base64DecodeOutSize str.length := by
            rw [base64DecodeOutSize]
            omega
          obtain ⟨out', hturn⟩ := base64Turn_isSome str hsize c out
          simp only [hturn, Option.bind_eq_bind, Option.bind_some]
          rw [ih hnext (by omega) out', base64Length]
          omega
        · have hsize : base64DecodeOutSize str.length ≤ i / 4 * 3 := by
            rw [base64DecodeOutSize]
            omega
          have hturn := base64Turn_eq_none str (show i % 4 = 0 by omega) hsize c out
          simp only [hturn, Option.bind_eq_bind, Option.bind_none]
          refine iff_of_false (by simp) ?_
          omega

/-- `base64_decode` stays inside its array just when no character that counts is behind the last whole four. -/
theorem base64Decode_isSome_iff (str : List UInt8) (out : Mem) :
    (base64Decode str out).isSome = true ↔ base64Length str ≤ str.length / 4 * 4 := by
  have hloop := base64Loop_isSome_iff str (List.drop_zero).symm (Nat.zero_le _) out
  rwa [Nat.zero_add] at hloop

end

end ProgrammingPath.Rtsp
