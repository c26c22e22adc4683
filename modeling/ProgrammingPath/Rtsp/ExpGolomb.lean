import Mathlib.Data.Rat.Floor
import ProgrammingPath.Lib.ExpGolomb
import ProgrammingPath.Rtsp.SpsDecode

/-!
# The bit reader of `sps_decode.c`

`Ue`, `Se` and `u` as the machine runs them: `StartBit` and `nLen` are of type `UINT`, and so is `nLen * 8`,
which bounds the search for the first one bit. Whatever symbols are written one behind the other are read
back, as long as the number of their bits fits. What `h264_decode_sps` reads on numbers, the machine reads
as well (`ue_eq_some`).
-/

namespace ProgrammingPath.Rtsp.ExpGolomb

open ProgrammingPath.Lib

/-! ## The code -/

section

variable (pBuff : Mem)

/-- `pBuff[*nStartBit / 8] & (0x80 >> (*nStartBit % 8))`. -/
def bitAt (startBit : UInt32) : Bool :=
  pBuff (startBit / 8).toNat &&& (0x80 >>> (startBit % 8).toUInt8) != 0

/-- The loop of `u`, and the second one of `Ue`: `dwRet` and `*nStartBit` behind it. -/
def readBits : Nat → UInt64 → UInt32 → UInt64 × UInt32
  | 0, dwRet, startBit => (dwRet, startBit)
  | n + 1, dwRet, startBit =>
    readBits n ((dwRet <<< 1) + if bitAt pBuff startBit then 1 else 0) (startBit + 1)

/-- The first loop of `Ue` with so many bits in front of `nLen * 8`: `nZeroNum` and `*nStartBit`. -/
def zerosLoop : Nat → UInt32 → UInt32 → UInt32 × UInt32
  | 0, nZeroNum, startBit => (nZeroNum, startBit)
  | left + 1, nZeroNum, startBit =>
    if bitAt pBuff startBit then (nZeroNum, startBit) else zerosLoop left (nZeroNum + 1) (startBit + 1)

/-- `u`. -/
def u (bitCount startBit : UInt32) : UInt64 × UInt32 := readBits pBuff bitCount.toNat 0 startBit

/-- `Ue`. The shift of an `int` is defined up to 30. -/
def ue (nLen startBit : UInt32) : Option (UInt32 × UInt32) :=
  let (nZeroNum, startBit) := zerosLoop pBuff ((nLen * 8).toNat - startBit.toNat) 0 startBit
  let (dwRet, startBit) := readBits pBuff nZeroNum.toNat 0 (startBit + 1)
  if nZeroNum ≤ 30 then some (((1 <<< nZeroNum.toUInt64) - 1 + dwRet).toUInt32, startBit) else none

/-- `Se`. A `double` has every `int` and the half of it, so the division and `ceil` are those of numbers. -/
def se (nLen startBit : UInt32) : Option (Int × UInt32) := do
  let (ret, startBit) ← ue pBuff nLen startBit
  let ueVal : Int := ret.toInt32.toInt
  let nValue : Int := ⌈(ueVal : ℚ) / 2⌉
  some (if ueVal.tmod 2 = 0 then -nValue else nValue, startBit)

end

/-! ## Symbols -/

/-- What is written. -/
inductive Symbol
  | ue (v : Nat) (hv : v < 2 ^ 31 - 1)
  | se (v : Int) (hv : v.natAbs < 2 ^ 30)
  | u (bitCount v : Nat) (hcount : bitCount ≤ 32) (hv : v < 2 ^ bitCount)

namespace Symbol

def value : Symbol → Int
  | ue v _ => v
  | se v _ => v
  | u _ v _ _ => v

def code : Symbol → List Bool
  | ue v _ => ueCode v
  | se v _ => seCode v
  | u bitCount v _ _ => bitsOf bitCount v

/-- The function that reads it. -/
def read (pBuff : Mem) (nLen startBit : UInt32) : Symbol → Option (Int × UInt32)
  | ue _ _ => (ExpGolomb.ue pBuff nLen startBit).map fun r => (r.1.toNat, r.2)
  | se _ _ => ExpGolomb.se pBuff nLen startBit
  | u bitCount _ _ _ =>
    let (dwRet, startBit) := ExpGolomb.u pBuff (UInt32.ofNat bitCount) startBit
    some (dwRet.toNat, startBit)

/-- It is read without a search: a field, or an exp-Golomb code of 0. -/
def Short : Symbol → Prop
  | ue v _ => v = 0
  | se v _ => v = 0
  | u _ _ _ _ => True

end Symbol

/-- Symbols one behind the other. -/
def codes (symbols : List Symbol) : List Bool := symbols.flatMap Symbol.code

/-- They are read in the same order. -/
def readAll (pBuff : Mem) (nLen : UInt32) : List Symbol → UInt32 → Option (List Int × UInt32)
  | [], startBit => some ([], startBit)
  | x :: symbols, startBit => do
    let (v, startBit) ← x.read pBuff nLen startBit
    let (vs, startBit) ← readAll pBuff nLen symbols startBit
    some (v :: vs, startBit)

/-- From `StartBit` 0 on the values are read, and `StartBit` is then the number of bits. -/
def ReadsBack (pBuff : Mem) (nLen : UInt32) (symbols : List Symbol) : Prop :=
  ∃ startBit, readAll pBuff nLen symbols 0 = some (symbols.map Symbol.value, startBit) ∧
    startBit.toNat = (codes symbols).length

/-- The bits of a buffer. -/
def bufferBits (bytes : List UInt8) : List Bool := bytes.flatMap fun b => bitsOf 8 b.toNat

/-! ## The bits of memory -/

/-- The bit at a place behind the pointer. -/
def memBit (mem : Mem) (p : Nat) : Bool := (mem (p / 8 : Nat)).toNat.testBit (7 - p % 8)

theorem testBit_mask : ∀ n < 256, ∀ k < 8,
    (UInt8.ofNat n &&& (0x80 >>> UInt8.ofNat k) != 0) = n.testBit (7 - k) := by decide +kernel

section

variable {mem : Mem} {startBit nLen : UInt32}

theorem bitAt_eq (mem : Mem) (startBit : UInt32) : bitAt mem startBit = memBit mem startBit.toNat := by
  have hplace : (startBit / 8).toNat = startBit.toNat / 8 := by rw [UInt32.toNat_div]; rfl
  have hmask : (startBit % 8).toUInt8 = UInt8.ofNat (startBit.toNat % 8) := by
    apply UInt8.toNat_inj.mp
    simp [UInt32.toNat_mod]
  have hbyte := testBit_mask (mem (startBit.toNat / 8 : Nat)).toNat (UInt8.toNat_lt _) (startBit.toNat % 8)
    (Nat.mod_lt _ (by omega))
  rw [bitAt, memBit, hplace, hmask, ← hbyte, UInt8.ofNat_toNat]

/-- The bits of a buffer that is in memory. -/
theorem bitsAt_bufferBits {bytes : List UInt8} {k : Nat} (h : mem.bytes k bytes.length = bytes) :
    BitsAt (memBit mem) (8 * k) (bufferBits bytes) := by
  induction bytes generalizing k with
  | nil => trivial
  | cons b bytes ih =>
    rw [List.length_cons, Mem.bytes_succ] at h
    obtain ⟨hb, hrest⟩ := List.cons.inj h
    rw [bufferBits, List.flatMap_cons, bitsAt_append, length_bitsOf]
    refine ⟨bitsAt_bitsOf fun i hi => ?_, ih hrest⟩
    have hdiv : (8 * k + i) / 8 = k := by omega
    have hmod : (8 * k + i) % 8 = i := by omega
    rw [memBit, hdiv, hmod, hb]

/-! ## The loops -/

theorem toNat_add_ofNat {n : Nat} (h : startBit.toNat + n < 2 ^ 32) :
    (startBit + UInt32.ofNat n).toNat = startBit.toNat + n := by
  rw [UInt32.toNat_add, UInt32.toNat_ofNat', Nat.add_mod_mod]
  exact Nat.mod_eq_of_lt h

theorem toNat_add_one (h : startBit.toNat + 1 < 2 ^ 32) : (startBit + 1).toNat = startBit.toNat + 1 :=
  toNat_add_ofNat h

theorem shift_step (v : Nat) (b : Bool) :
    (UInt64.ofNat v <<< 1) + (if b then 1 else 0) = UInt64.ofNat (2 * v + b.toNat) := by
  apply UInt64.toNat_inj.mp
  cases b <;> simp [Nat.shiftLeft_eq] <;> omega

/-- So many bits are read. -/
theorem readBits_eq {bits : List Bool} (h : BitsAt (memBit mem) startBit.toNat bits)
    (hfits : startBit.toNat + bits.length < 2 ^ 32) (v : Nat) :
    readBits mem bits.length (UInt64.ofNat v) startBit =
      (UInt64.ofNat (bitsValue v bits), startBit + UInt32.ofNat bits.length) := by
  induction bits generalizing startBit v with
  | nil => exact congrArg (Prod.mk _) (UInt32.add_zero startBit).symm
  | cons b bits ih =>
    rw [List.length_cons] at hfits
    have hnext : (startBit + 1).toNat = startBit.toNat + 1 := toNat_add_one (by omega)
    obtain ⟨hb, hbits⟩ := h
    rw [← hnext] at hbits
    rw [List.length_cons, readBits, bitAt_eq, hb, shift_step, ih hbits (by omega)]
    refine Prod.ext rfl ?_
    show startBit + 1 + UInt32.ofNat bits.length = startBit + UInt32.ofNat (bits.length + 1)
    rw [UInt32.ofNat_add, UInt32.add_assoc, UInt32.add_comm 1]
    rfl

/-- The first one bit is found, when it is in front of the end of the search or the next one. -/
theorem zerosLoop_eq {z left : Nat} {bits : List Bool}
    (h : BitsAt (memBit mem) startBit.toNat (List.replicate z false ++ true :: bits))
    (hfits : startBit.toNat + z < 2 ^ 32) (hleft : z = 0 ∨ z < left) (zeros : UInt32) :
    zerosLoop mem left zeros startBit = (zeros + UInt32.ofNat z, startBit + UInt32.ofNat z) := by
  induction z generalizing startBit left zeros with
  | zero =>
    have hfound : zerosLoop mem left zeros startBit = (zeros, startBit) := by
      cases left with
      | zero => rfl
      | succ left => rw [zerosLoop, bitAt_eq, if_pos h.1]
    rw [hfound]
    exact Prod.ext (UInt32.add_zero zeros).symm (UInt32.add_zero startBit).symm
  | succ z ih =>
    obtain ⟨left, rfl⟩ := Nat.exists_eq_succ_of_ne_zero (show left ≠ 0 by omega)
    have hnext : (startBit + 1).toNat = startBit.toNat + 1 := toNat_add_one (by omega)
    obtain ⟨hb, hbits⟩ := h
    rw [← hnext] at hbits
    rw [zerosLoop, bitAt_eq, hb, if_neg Bool.false_ne_true, ih hbits (by omega) (by omega), UInt32.ofNat_add,
      UInt32.add_assoc, UInt32.add_assoc, UInt32.add_comm 1]
    rfl

/-! ## The functions -/

/-- What `Ue` returns, put together. -/
theorem ue_value {k : Nat} (hk : k ≤ 30) (n : Nat) :
    ((1 <<< (UInt32.ofNat k).toUInt64) - 1 + UInt64.ofNat n).toUInt32 = UInt32.ofNat (2 ^ k - 1 + n) := by
  have hshift : (1 : UInt64) <<< (UInt32.ofNat k).toUInt64 = UInt64.ofNat (2 ^ k) := by
    apply UInt64.toNat_inj.mp
    have hmod : k % 4294967296 % 64 = k := by omega
    simp [Nat.shiftLeft_eq, hmod]
  have hone : 1 ≤ 2 ^ k := Nat.two_pow_pos k
  rw [hshift, show (1 : UInt64) = UInt64.ofNat 1 from rfl, ← UInt64.ofNat_sub hone, ← UInt64.ofNat_add,
    UInt64.toUInt32_ofNat']

/-- `Ue` reads a code: that of zero anywhere, another one in front of `nLen * 8`. -/
theorem ue_eq {v : Nat} (hv : v < 2 ^ 31 - 1) (h : BitsAt (memBit mem) startBit.toNat (ueCode v))
    (hfits : startBit.toNat + (ueCode v).length < 2 ^ 32)
    (hleft : v = 0 ∨ startBit.toNat + (ueCode v).length ≤ (nLen * 8).toNat) :
    ue mem nLen startBit = some (UInt32.ofNat v, startBit + UInt32.ofNat (ueCode v).length) := by
  obtain ⟨k, hk⟩ : ∃ k, k = (v + 1).log2 := ⟨_, rfl⟩
  have hsmall : k ≤ 30 := by
    have hlog : (v + 1).log2 < 31 := (Nat.log2_lt (Nat.succ_ne_zero v)).mpr (by omega)
    omega
  have hk32 : (UInt32.ofNat k).toNat = k := UInt32.toNat_ofNat_of_lt' (Nat.lt_of_le_of_lt hsmall (by decide))
  have hle : UInt32.ofNat k ≤ 30 := by
    rw [UInt32.le_iff_toNat_le, hk32]
    exact hsmall
  have hvalue := ueCode_value v
  rw [ueCode_eq, ← hk] at h
  rw [length_ueCode, ← hk] at hfits hleft ⊢
  rw [← hk] at hvalue
  have hzeros : zerosLoop mem ((nLen * 8).toNat - startBit.toNat) 0 startBit =
      (UInt32.ofNat k, startBit + UInt32.ofNat k) := by
    have hleft' : k = 0 ∨ k < (nLen * 8).toNat - startBit.toNat := by
      rcases hleft with rfl | hleft
      · exact .inl hk
      · right
        omega
    rw [zerosLoop_eq h (by omega) hleft', UInt32.zero_add]
  have hbehind : (startBit + UInt32.ofNat k).toNat = startBit.toNat + k := toNat_add_ofNat (by omega)
  have hplace : (startBit + UInt32.ofNat k + 1).toNat = startBit.toNat + k + 1 := by
    rw [toNat_add_one (by omega), hbehind]
  rw [bitsAt_append, List.length_replicate] at h
  have hbits := h.2.2
  rw [← hplace] at hbits
  have hread := readBits_eq hbits (by rw [length_bitsOf, hplace]; omega) 0
  rw [length_bitsOf] at hread
  have hend : startBit + UInt32.ofNat k + 1 + UInt32.ofNat k = startBit + UInt32.ofNat (2 * k + 1) := by
    apply UInt32.toNat_inj.mp
    rw [toNat_add_ofNat (by omega), toNat_add_ofNat (by omega), hplace]
    omega
  rw [ue, hzeros]
  dsimp only
  rw [hk32, show (0 : UInt64) = UInt64.ofNat 0 from rfl, hread]
  dsimp only
  rw [if_pos hle, ue_value hsmall, hvalue, hend]

/-- With nothing in front of `nLen * 8`, `Ue` returns 0. -/
theorem ue_of_empty (h : nLen * 8 = 0) (mem : Mem) (startBit : UInt32) :
    ue mem nLen startBit = some (0, startBit + 1) := by
  rw [ue, h, show (0 : UInt32).toNat - startBit.toNat = 0 from Nat.zero_sub _]
  rfl

theorem ceil_half_odd (k : Nat) : ⌈(((2 * k + 1 : Nat) : Int) : ℚ) / 2⌉ = k + 1 := by
  rw [Int.ceil_eq_iff]
  push_cast
  constructor <;> linarith

theorem ceil_half_even (k : Nat) : ⌈(((2 * k : Nat) : Int) : ℚ) / 2⌉ = k := by
  rw [Int.ceil_eq_iff]
  push_cast
  constructor <;> linarith

/-- `Se` takes the sign from the lowest bit. -/
theorem se_of_ue {v : Int} (hv : v.natAbs < 2 ^ 30) {next : UInt32}
    (hue : ue mem nLen startBit = some (UInt32.ofNat (seIndex v), next)) :
    se mem nLen startBit = some (v, next) := by
  have hsmall : seIndex v < 2 ^ 31 := by
    rw [seIndex]
    split <;> omega
  have hueVal : (UInt32.ofNat (seIndex v)).toInt32.toInt = seIndex v := Int32.toInt_ofNat_of_lt hsmall
  rw [se, hue]
  dsimp only [Option.bind_eq_bind, Option.bind_some]
  rw [hueVal, Int.tmod_eq_emod_of_nonneg (Int.natCast_nonneg _)]
  rcases seIndex_cases v with ⟨k, hk, hvk⟩ | ⟨k, hk, hvk⟩
  · rw [hk, ceil_half_odd, if_neg (by omega), hvk]
  · rw [hk, ceil_half_even, if_pos (by omega), hvk]

/-! ## One symbol -/

/-- A symbol is read where its code is, and only it. -/
theorem Symbol.read_eq (x : Symbol) (h : BitsAt (memBit mem) startBit.toNat x.code)
    (hfits : startBit.toNat + x.code.length < 2 ^ 32)
    (hleft : x.Short ∨ startBit.toNat + x.code.length ≤ (nLen * 8).toNat) :
    x.read mem nLen startBit = some (x.value, startBit + UInt32.ofNat x.code.length) := by
  cases x with
  | ue v hv =>
    have hv32 : (UInt32.ofNat v).toNat = v := UInt32.toNat_ofNat_of_lt' (Nat.lt_trans hv (by decide))
    rw [read, ue_eq hv h hfits hleft, Option.map_some, hv32]
    rfl
  | se v hv =>
    have hindex : seIndex v < 2 ^ 31 - 1 := by
      rw [seIndex]
      split <;> omega
    exact se_of_ue hv (ue_eq hindex h hfits (hleft.imp_left seIndex_eq_zero.mpr))
  | u bitCount v hcount hv =>
    have hcount32 : (UInt32.ofNat bitCount).toNat = bitCount :=
      UInt32.toNat_ofNat_of_lt' (Nat.lt_of_le_of_lt hcount (by decide))
    have hv64 : (UInt64.ofNat v).toNat = v := by
      apply UInt64.toNat_ofNat_of_lt'
      calc v < 2 ^ bitCount := hv
        _ ≤ 2 ^ 32 := Nat.pow_le_pow_right (by decide) hcount
        _ < UInt64.size := by decide
    have hread := readBits_eq h hfits 0
    rw [code, length_bitsOf, bitsValue_bitsOf, Nat.zero_mul, Nat.zero_add, Nat.mod_eq_of_lt hv] at hread
    rw [read, ExpGolomb.u, hcount32, show (0 : UInt64) = UInt64.ofNat 0 from rfl, hread]
    dsimp only
    rw [hv64, code, length_bitsOf]
    rfl

/-- With nothing in front of `nLen * 8`, only what needs no search is read. -/
theorem Symbol.short_of_empty (hempty : nLen * 8 = 0) (x : Symbol) {next : UInt32}
    (h : x.read mem nLen startBit = some (x.value, next)) : x.Short := by
  have hue := ue_of_empty hempty mem startBit
  cases x with
  | ue v hv =>
    rw [read, hue] at h
    exact Int.ofNat.inj (congrArg Prod.fst (Option.some.inj h)).symm
  | se v hv =>
    have hse : ExpGolomb.se mem nLen startBit = some (0, startBit + 1) := se_of_ue (by decide) hue
    rw [read, hse] at h
    exact (congrArg Prod.fst (Option.some.inj h)).symm
  | u bitCount v hcount hv => trivial

/-! ## All symbols -/

theorem readAll_eq {symbols : List Symbol} (h : BitsAt (memBit mem) startBit.toNat (codes symbols))
    (hfits : startBit.toNat + (codes symbols).length < 2 ^ 32)
    (hleft : (∀ x ∈ symbols, x.Short) ∨ startBit.toNat + (codes symbols).length ≤ (nLen * 8).toNat) :
    readAll mem nLen symbols startBit =
      some (symbols.map Symbol.value, startBit + UInt32.ofNat (codes symbols).length) := by
  induction symbols generalizing startBit with
  | nil => exact congrArg (fun s => some ([], s)) (UInt32.add_zero startBit).symm
  | cons x symbols ih =>
    rw [codes, List.flatMap_cons, ← codes] at h hfits hleft ⊢
    rw [List.length_append] at hfits hleft ⊢
    rw [bitsAt_append] at h
    have hnext : (startBit + UInt32.ofNat x.code.length).toNat = startBit.toNat + x.code.length :=
      toNat_add_ofNat (by omega)
    have hread : x.read mem nLen startBit = some (x.value, startBit + UInt32.ofNat x.code.length) := by
      refine x.read_eq h.1 (by omega) (hleft.imp (fun hall => hall x List.mem_cons_self) fun hle => ?_)
      omega
    have hbits := h.2
    rw [← hnext] at hbits
    have hrest := ih hbits (by omega)
      (hleft.imp (fun hall y hy => hall y (List.mem_cons_of_mem x hy)) fun hle => by omega)
    rw [readAll, hread]
    dsimp only [Option.bind_eq_bind, Option.bind_some]
    rw [hrest]
    dsimp only [Option.bind_some]
    rw [UInt32.add_assoc, ← UInt32.ofNat_add]
    rfl

theorem short_of_readAll (hempty : nLen * 8 = 0) {symbols : List Symbol} {next : UInt32}
    (h : readAll mem nLen symbols startBit = some (symbols.map Symbol.value, next)) : ∀ x ∈ symbols, x.Short := by
  induction symbols generalizing startBit with
  | nil => exact fun _ hx => nomatch hx
  | cons x symbols ih =>
    obtain ⟨⟨v, s₁⟩, hread, hmore⟩ := Option.bind_eq_some_iff.mp h
    obtain ⟨⟨vs, s₂⟩, hrest, hend⟩ := Option.bind_eq_some_iff.mp hmore
    cases hend
    exact List.forall_mem_cons.mpr ⟨x.short_of_empty hempty hread, ih hrest⟩

end

theorem length_bufferBits (bytes : List UInt8) : (bufferBits bytes).length = 8 * bytes.length := by
  induction bytes with
  | nil => rfl
  | cons b bytes ih =>
    rw [bufferBits, List.flatMap_cons, ← bufferBits, List.length_append, length_bitsOf, ih, List.length_cons]
    omega

/-- **What is written is read back**, exactly as long as `StartBit` can count the bits and `nLen * 8` does not
wrap; where only the latter does, symbols that need no search still come back. -/
theorem readsBack_iff {symbols : List Symbol} {bytes : List UInt8} {pad : List Bool}
    (hbytes : bufferBits bytes = codes symbols ++ pad) (hpad : pad.length < 8) {mem : Mem}
    (hmem : mem.bytes 0 bytes.length = bytes) :
    ReadsBack mem (UInt32.ofNat bytes.length) symbols ↔
      (codes symbols).length < 2 ^ 32 ∧ (8 * bytes.length < 2 ^ 32 ∨ ∀ x ∈ symbols, x.Short) := by
  have hlength : 8 * bytes.length = (codes symbols).length + pad.length := by
    rw [← length_bufferBits, hbytes, List.length_append]
  constructor
  · rintro ⟨startBit, hread, hend⟩
    have hfits : (codes symbols).length < 2 ^ 32 := hend ▸ startBit.toNat_lt
    refine ⟨hfits, ?_⟩
    by_cases hwrap : 8 * bytes.length < 2 ^ 32
    · exact .inl hwrap
    · right
      have hlen : bytes.length = 2 ^ 29 := by omega
      rw [hlen] at hread
      exact short_of_readAll (by decide) hread
  · rintro ⟨hfits, hleft⟩
    have hbits : BitsAt (memBit mem) (UInt32.toNat 0) (codes symbols) := by
      have hall := bitsAt_bufferBits (k := 0) hmem
      rw [hbytes, bitsAt_append] at hall
      exact hall.1
    have hstop : (∀ x ∈ symbols, x.Short) ∨
        UInt32.toNat 0 + (codes symbols).length ≤ (UInt32.ofNat bytes.length * 8).toNat := by
      rcases hleft with hwrap | hshort
      · right
        have hnLen : (UInt32.ofNat bytes.length * 8).toNat = 8 * bytes.length := by
          rw [UInt32.toNat_mul, UInt32.toNat_ofNat_of_lt' (Nat.lt_of_le_of_lt (by omega) hwrap), Nat.mul_comm]
          exact Nat.mod_eq_of_lt hwrap
        rw [hnLen, UInt32.toNat_zero]
        omega
      · exact .inl hshort
    have hstart : UInt32.toNat 0 + (codes symbols).length < 2 ^ 32 := by rwa [UInt32.toNat_zero, Nat.zero_add]
    exact ⟨_, readAll_eq hbits hstart hstop, by rw [toNat_add_ofNat hstart, UInt32.toNat_zero, Nat.zero_add]⟩

/-- A few symbols in two bytes. -/
theorem readsBack_twoBytes :
    ReadsBack (Mem.zero.write 0 [0x23, 0x90]) (UInt32.ofNat [0x23, 0x90].length)
      [.ue 3 (by decide), .se (-1) (by decide), .u 4 9 (by decide) (by decide)] := by
  have hbytes : bufferBits [0x23, 0x90] =
      codes [.ue 3 (by decide), .se (-1) (by decide), .u 4 9 (by decide) (by decide)] ++ List.replicate 4 false := by
    decide +kernel
  have hmem : (Mem.zero.write 0 [0x23, 0x90]).bytes 0 [0x23, 0x90].length = [0x23, 0x90] := Mem.bytes_write_self _
  exact (readsBack_iff hbytes (by decide) hmem).mpr ⟨by decide +kernel, .inl (by decide)⟩

/-- `StartBit` does not get to 2^32, the number of the bits of 2^27 fields with 32 bits each. -/
theorem not_readsBack_zeros : ¬∀ (symbols : List Symbol) (bytes : List UInt8) (pad : List Bool) (mem : Mem),
    bufferBits bytes = codes symbols ++ pad → pad.length < 8 → mem.bytes 0 bytes.length = bytes →
    ReadsBack mem (UInt32.ofNat bytes.length) symbols := by
  intro hall
  let field : Symbol := .u 32 0 (by decide) (by decide)
  have hbuffer (n : Nat) : bufferBits (List.replicate n 0) = List.replicate (n * 8) false := by
    have hbyte : bitsOf 8 (UInt8.toNat 0) = List.replicate 8 false := by decide +kernel
    rw [bufferBits, List.flatMap_replicate, hbyte]
    exact List.flatten_replicate_replicate
  have hcodes (n : Nat) : codes (List.replicate n field) = List.replicate (n * 32) false := by
    have hfield : field.code = List.replicate 32 false := by decide +kernel
    rw [codes, List.flatMap_replicate, hfield]
    exact List.flatten_replicate_replicate
  have hmem (n : Nat) : Mem.zero.bytes 0 (List.replicate n (0 : UInt8)).length = List.replicate n 0 := by
    rw [List.length_replicate]
    refine List.eq_replicate_iff.mpr ⟨Mem.length_bytes _, fun b hb => ?_⟩
    obtain ⟨k, -, hk⟩ := List.mem_map.mp hb
    exact hk.symm
  have hsame (n : Nat) : bufferBits (List.replicate (4 * n) 0) = codes (List.replicate n field) ++ [] := by
    rw [hbuffer, hcodes, List.append_nil, Nat.mul_right_comm, Nat.mul_comm]
  obtain ⟨startBit, -, hend⟩ := hall (List.replicate (2 ^ 27) field) (List.replicate (4 * 2 ^ 27) 0) [] Mem.zero
    (hsame _) (by decide) (hmem _)
  rw [hcodes, List.length_replicate] at hend
  have hlt := startBit.toNat_lt
  omega

/-! ## The functions of `h264_decode_sps` -/

section

variable {mem : Mem} {off : Int} {p p' v : Nat}

/-- What is behind the pointer to a unit. -/
def behind (mem : Mem) (off : Int) : Mem := fun i => mem (off + i)

theorem bit_eq_some (h : bit mem off p = some (v, p')) : v = (memBit (behind mem off) p).toNat ∧ p' = p + 1 := by
  rw [bit] at h
  split at h
  · cases h
    rw [memBit, Nat.toNat_testBit]
    exact ⟨rfl, rfl⟩
  · cases h

/-- The bits that `u` has read. -/
theorem u_eq_some {n : Nat} (h : Rtsp.u mem off n p = some (v, p')) :
    ∃ bits : List Bool, bits.length = n ∧ BitsAt (memBit (behind mem off)) p bits ∧ v = bitsValue 0 bits ∧
      p' = p + n := by
  induction n generalizing v p' with
  | zero =>
    cases h
    exact ⟨[], rfl, trivial, rfl, rfl⟩
  | succ n ih =>
    obtain ⟨⟨high, p₁⟩, hhigh, h⟩ := Option.bind_eq_some_iff.mp h
    obtain ⟨⟨low, p₂⟩, hlow, h⟩ := Option.bind_eq_some_iff.mp h
    obtain ⟨bits, hlen, hbits, rfl, rfl⟩ := ih hhigh
    obtain ⟨rfl, rfl⟩ := bit_eq_some hlow
    cases h
    refine ⟨bits ++ [memBit (behind mem off) (p + n)], ?_, ?_, ?_, rfl⟩
    · rw [List.length_append, hlen, List.length_singleton]
    · rw [bitsAt_append, hlen]
      exact ⟨hbits, rfl, trivial⟩
    · exact (bitsValue_concat ..).symm

/-- `u` is the same on machine integers. -/
theorem readBits_of_u {n : Nat} (h : Rtsp.u mem off n p = some (v, p')) :
    p' = p + n ∧ ∀ {startBit : UInt32}, startBit.toNat = p → p + n < 2 ^ 32 →
      readBits (behind mem off) n 0 startBit = (UInt64.ofNat v, startBit + UInt32.ofNat n) := by
  obtain ⟨bits, rfl, hbits, rfl, hp⟩ := u_eq_some h
  refine ⟨hp, fun hplace hfits => ?_⟩
  subst hplace
  exact readBits_eq hbits hfits 0

/-- The zero bits that `Ue` has passed over, up to a one bit or to the end. -/
theorem nZeroNum_eq_some {left z : Nat} (h : nZeroNum mem off left p = some (z, p')) :
    p' = p + z ∧ ∀ {startBit : UInt32}, startBit.toNat = p → p + z < 2 ^ 32 → ∀ zeros,
      zerosLoop (behind mem off) left zeros startBit = (zeros + UInt32.ofNat z, startBit + UInt32.ofNat z) := by
  have hstay (zeros startBit : UInt32) :
      (zeros, startBit) = (zeros + UInt32.ofNat 0, startBit + UInt32.ofNat 0) :=
    Prod.ext (UInt32.add_zero zeros).symm (UInt32.add_zero startBit).symm
  induction left generalizing p z with
  | zero =>
    cases h
    exact ⟨rfl, fun _ _ zeros => hstay zeros _⟩
  | succ left ih =>
    obtain ⟨⟨b, p₁⟩, hbit, h⟩ := Option.bind_eq_some_iff.mp h
    obtain ⟨rfl, rfl⟩ := bit_eq_some hbit
    cases hb : memBit (behind mem off) p with
    | true =>
      rw [hb] at h
      cases h
      refine ⟨rfl, fun hplace _ zeros => ?_⟩
      rw [zerosLoop, bitAt_eq, hplace, hb]
      exact hstay zeros _
    | false =>
      rw [hb] at h
      obtain ⟨⟨z, p₂⟩, hzeros, h⟩ := Option.bind_eq_some_iff.mp h
      cases h
      obtain ⟨hp, hloop⟩ := ih hzeros
      refine ⟨by omega, fun {startBit} hplace hfits zeros => ?_⟩
      have hnext : (startBit + 1).toNat = p + 1 := by rw [toNat_add_one (by omega), hplace]
      rw [zerosLoop, bitAt_eq, hplace, hb, if_neg Bool.false_ne_true, hloop hnext (by omega), UInt32.ofNat_add,
        UInt32.add_assoc, UInt32.add_assoc, UInt32.add_comm 1]
      rfl

/-- Where `h264_decode_sps` goes on behind `Ue`, the machine has read the same number. -/
theorem ue_eq_some {nLen n : Nat} (h : Rtsp.ue mem off nLen p = some (n, p')) (hlen : 8 * nLen < 2 ^ 32)
    (hend : p' < 2 ^ 32) {startBit : UInt32} (hplace : startBit.toNat = p) {r : UInt32 × UInt32}
    (hr : ue (behind mem off) (UInt32.ofNat nLen) startBit = some r) : r = (UInt32.ofNat n, UInt32.ofNat p') := by
  obtain ⟨⟨z, p₁⟩, hzeros, h⟩ := Option.bind_eq_some_iff.mp h
  obtain ⟨⟨ret, p₂⟩, hret, h⟩ := Option.bind_eq_some_iff.mp h
  cases h
  obtain ⟨rfl, hloop⟩ := nZeroNum_eq_some hzeros
  have hret' : Rtsp.u mem off z (p + z + 1) = some (ret, p') := hret
  obtain ⟨rfl, hread⟩ := readBits_of_u hret'
  have hstop : (UInt32.ofNat nLen * 8).toNat = 8 * nLen := by
    rw [UInt32.toNat_mul, UInt32.toNat_ofNat_of_lt' (Nat.lt_of_le_of_lt (by omega) hlen), Nat.mul_comm]
    exact Nat.mod_eq_of_lt hlen
  have hz : (UInt32.ofNat z).toNat = z := UInt32.toNat_ofNat_of_lt' (Nat.lt_of_le_of_lt (by omega) hend)
  have hbehind : (startBit + UInt32.ofNat z + 1).toNat = p + z + 1 := by
    rw [toNat_add_one (by rw [toNat_add_ofNat (by omega)]; omega), toNat_add_ofNat (by omega), hplace]
  rw [ue, hstop, hplace, hloop hplace (by omega), UInt32.zero_add] at hr
  dsimp only at hr
  rw [hz, hread hbehind (by omega)] at hr
  dsimp only at hr
  split at hr
  · next hle =>
    have hsmall : z ≤ 30 := by
      rw [UInt32.le_iff_toNat_le, hz] at hle
      exact hle
    rw [ue_value hsmall] at hr
    rw [← Option.some.inj hr, Nat.mod_eq_of_lt (Nat.lt_of_le_of_lt hsmall (by decide))]
    refine Prod.ext ?_ ?_
    · have hone : 0 < 2 ^ z := Nat.two_pow_pos z
      apply UInt32.toNat_inj.mp
      rw [UInt32.toNat_ofNat', UInt32.toNat_ofNat', Nat.mod_mod]
      omega
    · apply UInt32.toNat_inj.mp
      rw [toNat_add_ofNat (by omega), hbehind, UInt32.toNat_ofNat_of_lt' hend]
  · cases hr

end

end ProgrammingPath.Rtsp.ExpGolomb
