import ProgrammingPath.Lib.BitDivision
import ProgrammingPath.Mes.Frame

/-!
# The checksum of a CSCP frame is a remainder (`NetCSCP/mespack.cpp`)

The comment over `crc16_tab` says that the table implements `x^16 + x^12 + x^5 + 1`. Each of its 256
words is what eight rounds of the shift register leave of one byte, so a round of the loop over a
byte is eight rounds of the register, whatever it holds, and the checksum is the remainder of the
message times `x^16`. The loop reads characters, which are signed: the sign extension of a byte from
`0x80` on is masked away before it chooses a word.
-/

namespace ProgrammingPath.Mes

open ProgrammingPath.Qt ProgrammingPath.Lib

/-- `x^12 + x^5 + 1`, the generator without its leading term. -/
def ccittPoly : BitVec 16 := 0x1021

/-- The bits of a byte, the most significant one first. -/
def byteBits (b : UInt8) : List Bool := (List.range 8).map b.toBitVec.getMsbD

/-- The bits of a byte string in the order in which they are divided. -/
def messageBits (bytes : QByteArray) : List Bool := bytes.flatMap byteBits

/-- One round of the loop as written, on signed characters and in `int`:
`checkSum = crc16_tab[((checkSum >> 8) ^ array[i]) & 0xFF] ^ (checkSum << 8)`. -/
def crcStepChar (checkSum : UInt16) (c : Int8) : UInt16 :=
  let index : Int32 := ((checkSum >>> 8).toUInt32.toInt32 ^^^ c.toInt32) &&& 0xFF
  let word : Int32 := (crc16Tab.getD index.toNatClampNeg 0).toUInt32.toInt32 ^^^
    (checkSum.toUInt32.toInt32 <<< 8)
  word.toUInt32.toUInt16

/-- The loop over signed characters. -/
def crcChars (chars : List Int8) : UInt16 := chars.foldl crcStepChar 0

/-! ## Signed characters -/

/-- A mask of eight ones keeps the low byte, and no sign. -/
theorem toNatClampNeg_and_mask (x : Int32) :
    (x &&& 0xFF).toNatClampNeg = (x.toBitVec.setWidth 8).toNat := by
  have hmask : x.toBitVec &&& 0xFF#32 = (x.toBitVec.setWidth 8).setWidth 32 := by
    apply BitVec.eq_of_getLsbD_eq
    intro i hi
    have hones : (0xFF#32).getLsbD i = decide (i < 8) := Nat.testBit_two_pow_sub_one 8 i
    rw [BitVec.getLsbD_and, BitVec.getLsbD_setWidth, BitVec.getLsbD_setWidth]
    rw [hones, Bool.and_comm, decide_eq_true hi, Bool.true_and]
  have hlt := (x.toBitVec.setWidth 8).isLt
  have hwide : ((x.toBitVec.setWidth 8).setWidth 32).toNat = (x.toBitVec.setWidth 8).toNat := by
    rw [BitVec.toNat_setWidth, Nat.mod_eq_of_lt (by omega)]
  show (x.toBitVec &&& 0xFF#32).toInt.toNat = _
  rw [hmask, BitVec.toInt_eq_toNat_of_lt (by omega), Int.toNat_natCast, hwide]

/-- The index is the one of the unsigned byte. -/
theorem toNatClampNeg_index (hi : UInt16) (b : UInt8) :
    ((hi.toUInt32.toInt32 ^^^ b.toInt8.toInt32) &&& 0xFF).toNatClampNeg =
      (hi.toUInt8 ^^^ b).toNat := by
  rw [toNatClampNeg_and_mask]
  show ((hi.toBitVec.setWidth 32 ^^^ b.toBitVec.signExtend 32).setWidth 8).toNat =
    (hi.toBitVec.setWidth 8 ^^^ b.toBitVec).toNat
  congr 1
  apply BitVec.eq_of_getLsbD_eq
  intro i hi
  simp [BitVec.getLsbD_signExtend, hi]
  omega

/-- Nothing of the sum above the low 16 bits is kept. -/
theorem toUInt16_word (word checkSum : UInt16) :
    (word.toUInt32.toInt32 ^^^ (checkSum.toUInt32.toInt32 <<< 8)).toUInt32.toUInt16 =
      word ^^^ (checkSum <<< 8) := by
  apply UInt16.toBitVec_inj.mp
  show (word.toBitVec.setWidth 32 ^^^ (checkSum.toBitVec.setWidth 32 <<< 8)).setWidth 16 =
    word.toBitVec ^^^ (checkSum.toBitVec <<< 8)
  apply BitVec.eq_of_getLsbD_eq
  intro i hi
  simp [hi]

theorem crcStepChar_toInt8 (checkSum : UInt16) (b : UInt8) :
    crcStepChar checkSum b.toInt8 = crcStep checkSum b :=
  (toUInt16_word _ _).trans (congrArg (fun i => crc16Tab.getD i 0 ^^^ (checkSum <<< 8))
    (toNatClampNeg_index _ _))

theorem crcChars_map_toInt8 (bytes : QByteArray) : crcChars (bytes.map UInt8.toInt8) = crc bytes := by
  unfold crcChars crc
  rw [List.foldl_map]
  simp only [crcStepChar_toInt8]

/-! ## The table -/

/-- Eight rounds in which only the byte in the upper half of the register decides. -/
def tableWord (b : BitVec 8) : BitVec 16 :=
  BitDivision.divide ccittPoly (b.setWidth 16 <<< 8) (List.replicate 8 false)

/-- Every word of the table is what eight rounds leave of its index. -/
theorem crc16Tab_eq :
    crc16Tab = (List.range 256).map fun i => UInt16.ofBitVec (tableWord (BitVec.ofNat 8 i)) := by
  decide +kernel

theorem crcEntry_eq (b : UInt8) : (crcEntry b).toBitVec = tableWord b.toBitVec := by
  have hlt : b.toNat < ((List.range 256).map fun i =>
      UInt16.ofBitVec (tableWord (BitVec.ofNat 8 i))).length := by
    rw [List.length_map, List.length_range]
    exact b.toNat_lt
  rw [crcEntry, crc16Tab_eq, List.getD_eq_getElem _ _ hlt, List.getElem_map, List.getElem_range]
  exact congrArg tableWord ((BitVec.ofNat_toNat 8 b.toBitVec).trans (BitVec.setWidth_eq _))

/-- The byte that chooses the word, in the upper half of a register. -/
def upperByte (checkSum : UInt16) (b : UInt8) : BitVec 16 :=
  ((checkSum >>> 8).toUInt8 ^^^ b).toBitVec.setWidth 16 <<< 8

/-- What is read differs from what falls out in the byte that chooses the word. -/
theorem byteBits_eq (checkSum : UInt16) (b : UInt8) :
    byteBits b = (List.range 8).map (checkSum.toBitVec ^^^ upperByte checkSum b).getMsbD := by
  apply List.map_congr_left
  intro i hi
  rw [List.mem_range] at hi
  show b.toBitVec.getMsbD i = (checkSum.toBitVec ^^^ (((checkSum.toBitVec >>> 8).setWidth 8 ^^^
    b.toBitVec).setWidth 16 <<< 8)).getMsbD i
  have hlo : 15 - i - 8 = 7 - i := by omega
  have hhi : 8 + (7 - i) = 15 - i := by omega
  have hge : ¬ 15 - i < 8 := by omega
  have h16 : i < 16 := by omega
  have h15 : 15 - i < 16 := by omega
  have h7 : 7 - i < 8 := by omega
  have h7' : 7 - i < 16 := by omega
  simp [BitVec.getMsbD, hi, hlo, hhi, hge, h16, h15, h7, h7']

theorem xor_upperByte_shiftLeft (checkSum : UInt16) (b : UInt8) :
    (checkSum.toBitVec ^^^ upperByte checkSum b) <<< 8 = checkSum.toBitVec <<< 8 := by
  apply BitVec.eq_of_getLsbD_eq
  intro i hi
  have hlo : i - 8 < 8 := by omega
  simp [upperByte, hlo]

/-- A round over a byte is eight rounds over its bits. -/
theorem crcStep_eq_divide (checkSum : UInt16) (b : UInt8) :
    (crcStep checkSum b).toBitVec =
      BitDivision.divide ccittPoly checkSum.toBitVec (byteBits b) := by
  have hrounds := BitDivision.divide_eq_xor_shiftLeft (g := ccittPoly) (byteBits_eq checkSum b)
  rw [show (byteBits b).length = 8 from rfl, xor_upperByte_shiftLeft] at hrounds
  rw [hrounds]
  show (crcEntry _).toBitVec ^^^ (checkSum.toBitVec <<< 8) = _
  rw [crcEntry_eq]
  rfl

/-- So is the whole loop. -/
theorem foldl_crcStep (bytes : QByteArray) (checkSum : UInt16) :
    (bytes.foldl crcStep checkSum).toBitVec =
      BitDivision.divide ccittPoly checkSum.toBitVec (messageBits bytes) := by
  induction bytes generalizing checkSum with
  | nil => rfl
  | cons b bytes ih =>
    rw [List.foldl_cons, ih, crcStep_eq_divide]
    simp only [BitDivision.divide, messageBits, List.flatMap_cons, List.foldl_append]

/-! ## The polynomial -/

open Polynomial in
theorem divisor_ccittPoly :
    BitDivision.divisor ccittPoly = (X ^ 16 + X ^ 12 + X ^ 5 + 1 : (ZMod 2)[X]) := by
  have hbits : BitDivision.toPoly ccittPoly = (X ^ 12 + X ^ 5 + 1 : (ZMod 2)[X]) := by
    simp [BitDivision.toPoly, BitDivision.coef, ccittPoly, Finset.sum_range_succ]
    ring
  rw [BitDivision.divisor, hbits]
  ring

/-- The loop over `crc16_tab` divides by `x^16 + x^12 + x^5 + 1`, the most significant bit first and
from an empty register, and what it returns is the remainder itself. It makes no difference that
the characters it reads are signed. -/
theorem crc_eq_remainder (bytes : QByteArray) :
    (crc bytes).toBitVec = BitDivision.divide ccittPoly 0 (messageBits bytes) ∧
      crcChars (bytes.map UInt8.toInt8) = crc bytes ∧
      BitDivision.toPoly (crc bytes).toBitVec =
        (BitDivision.message (messageBits bytes) * Polynomial.X ^ 16) %ₘ
          (Polynomial.X ^ 16 + Polynomial.X ^ 12 + Polynomial.X ^ 5 + 1) := by
  have hdivide : (crc bytes).toBitVec = BitDivision.divide ccittPoly 0 (messageBits bytes) :=
    foldl_crcStep bytes 0
  refine ⟨hdivide, crcChars_map_toInt8 bytes, ?_⟩
  rw [hdivide, BitDivision.toPoly_divide (by decide), divisor_ccittPoly]

/-- The check value of this checksum. -/
example : crc [0x31, 0x32, 0x33, 0x34, 0x35, 0x36, 0x37, 0x38, 0x39] = 0x31C3 := by decide +kernel

end ProgrammingPath.Mes
