import ProgrammingPath.Lib.FlvFile

/-!
# Decoder configuration records

How a decoder reads the records of H.264 and H.265: fields of fixed size, and then the parameter sets, each
behind its length in two bytes.
-/

namespace ProgrammingPath.Lib

/-- The unit behind a length in two bytes, and what follows it. -/
def readUnit : List UInt8 → Option (List UInt8 × List UInt8)
  | n1 :: n0 :: rest =>
    let size := ofBigEndian [n1, n0]
    if size ≤ rest.length then some (rest.take size, rest.drop size) else none
  | _ => none

/-- So many units. -/
def readUnits : Nat → List UInt8 → Option (List (List UInt8) × List UInt8)
  | 0, bytes => some ([], bytes)
  | n + 1, bytes => do
    let (unit, rest) ← readUnit bytes
    let (units, rest) ← readUnits n rest
    some (unit :: units, rest)

/-- What the record of H.264 says: profile, compatibility and level, and the parameter sets. -/
structure AvcRecord where
  profile : List UInt8
  sps : List (List UInt8)
  pps : List (List UInt8)
  deriving DecidableEq, Repr

/-- A record that takes up all the bytes. -/
def readAvcRecord : List UInt8 → Option AvcRecord
  | 1 :: profile :: compatibility :: level :: _lengthSize :: numSps :: bytes => do
    let (sps, bytes) ← readUnits (numSps.toNat % 32) bytes
    match bytes with
    | [] => none
    | numPps :: bytes =>
      let (pps, bytes) ← readUnits numPps.toNat bytes
      if bytes.isEmpty then some ⟨[profile, compatibility, level], sps, pps⟩ else none
  | _ => none

/-- What the record of H.265 says about the profile and the level. -/
structure HevcProfile where
  profile : UInt8
  compatibility : List UInt8
  constraint : List UInt8
  level : UInt8
  deriving DecidableEq, Repr

structure HevcRecord where
  general : HevcProfile
  arrays : List (Nat × List (List UInt8))
  deriving DecidableEq, Repr

/-- So many arrays of units of one type. -/
def readArrays : Nat → List UInt8 → Option (List (Nat × List (List UInt8)) × List UInt8)
  | 0, bytes => some ([], bytes)
  | n + 1, type :: c1 :: c0 :: bytes => do
    let (units, rest) ← readUnits (ofBigEndian [c1, c0]) bytes
    let (arrays, rest) ← readArrays n rest
    some ((type.toNat % 64, units) :: arrays, rest)
  | _ + 1, _ => none

/-- A record that takes up all the bytes. Between the level and the number of arrays there are nine bytes. -/
def readHevcRecord : List UInt8 → Option HevcRecord
  | 1 :: profile :: c0 :: c1 :: c2 :: c3 :: i0 :: i1 :: i2 :: i3 :: i4 :: i5 :: level ::
      _ :: _ :: _ :: _ :: _ :: _ :: _ :: _ :: _ :: bytes =>
    match bytes with
    | [] => none
    | numOfArrays :: bytes => do
      let (arrays, bytes) ← readArrays numOfArrays.toNat bytes
      if bytes.isEmpty then
        some ⟨⟨profile, [c0, c1, c2, c3], [i0, i1, i2, i3, i4, i5], level⟩, arrays⟩
      else none
  | _ => none

section

variable {unit : List UInt8} {n : Nat}

/-- A unit behind its length is read. -/
theorem readUnit_append (h : unit.length < 256 ^ 2) (rest : List UInt8) :
    readUnit (bigEndian 2 unit.length ++ (unit ++ rest)) = some (unit, rest) := by
  have hsize := ofBigEndian_bigEndian h
  obtain ⟨n1, n0, hn⟩ : ∃ a b, bigEndian 2 unit.length = [a, b] := ⟨_, _, rfl⟩
  rw [hn] at hsize ⊢
  simp only [List.cons_append, List.nil_append, readUnit, hsize, List.length_append,
    Nat.le_add_right, if_true, List.take_left, List.drop_left]

theorem readUnits_one (h : unit.length < 256 ^ 2) (rest : List UInt8) :
    readUnits 1 (bigEndian 2 unit.length ++ (unit ++ rest)) = some ([unit], rest) := by
  rw [readUnits, readUnit_append h]
  rfl

/-- An array of one unit is read, and then the others. -/
theorem readArrays_one (type : UInt8) (h : unit.length < 256 ^ 2) (rest : List UInt8) :
    readArrays (n + 1) (type :: 0 :: 1 :: (bigEndian 2 unit.length ++ (unit ++ rest))) =
      (readArrays n rest).map fun r => ((type.toNat % 64, [unit]) :: r.1, r.2) := by
  have hone : ofBigEndian [0, 1] = 1 := by decide
  rw [readArrays, hone, readUnits_one h]
  show (readArrays n rest).bind _ = _
  cases readArrays n rest <;> rfl

end

end ProgrammingPath.Lib
