import Mathlib.Data.List.GetD
import ProgrammingPath.Qt.Text

/-!
# CSCP frames (`NetCSCP/mespack.h`, `NetCSCP/mespack.cpp`)

A frame is

    HEAD 0x5A | FUNC (2) | DATA LEN (2) | DATA | CHECKSUM (2)

with all words low byte first; DATA is the command byte followed by the body, and the checksum
covers FUNC, DATA LEN and DATA. `MESPack.toByteArray` builds a frame, `MESPack.parse` reads one,
and the `read*` functions take the fields of the body one after the other.
-/

namespace ProgrammingPath.Mes

open ProgrammingPath.Qt

/-! ## The checksum -/

/-- Table of CRC constants, implements x^16+x^12+x^5+1. -/
def crc16Tab : List UInt16 :=
  [ 0x0000, 0x1021, 0x2042, 0x3063, 0x4084, 0x50a5, 0x60c6, 0x70e7,
    0x8108, 0x9129, 0xa14a, 0xb16b, 0xc18c, 0xd1ad, 0xe1ce, 0xf1ef,
    0x1231, 0x0210, 0x3273, 0x2252, 0x52b5, 0x4294, 0x72f7, 0x62d6,
    0x9339, 0x8318, 0xb37b, 0xa35a, 0xd3bd, 0xc39c, 0xf3ff, 0xe3de,
    0x2462, 0x3443, 0x0420, 0x1401, 0x64e6, 0x74c7, 0x44a4, 0x5485,
    0xa56a, 0xb54b, 0x8528, 0x9509, 0xe5ee, 0xf5cf, 0xc5ac, 0xd58d,
    0x3653, 0x2672, 0x1611, 0x0630, 0x76d7, 0x66f6, 0x5695, 0x46b4,
    0xb75b, 0xa77a, 0x9719, 0x8738, 0xf7df, 0xe7fe, 0xd79d, 0xc7bc,
    0x48c4, 0x58e5, 0x6886, 0x78a7, 0x0840, 0x1861, 0x2802, 0x3823,
    0xc9cc, 0xd9ed, 0xe98e, 0xf9af, 0x8948, 0x9969, 0xa90a, 0xb92b,
    0x5af5, 0x4ad4, 0x7ab7, 0x6a96, 0x1a71, 0x0a50, 0x3a33, 0x2a12,
    0xdbfd, 0xcbdc, 0xfbbf, 0xeb9e, 0x9b79, 0x8b58, 0xbb3b, 0xab1a,
    0x6ca6, 0x7c87, 0x4ce4, 0x5cc5, 0x2c22, 0x3c03, 0x0c60, 0x1c41,
    0xedae, 0xfd8f, 0xcdec, 0xddcd, 0xad2a, 0xbd0b, 0x8d68, 0x9d49,
    0x7e97, 0x6eb6, 0x5ed5, 0x4ef4, 0x3e13, 0x2e32, 0x1e51, 0x0e70,
    0xff9f, 0xefbe, 0xdfdd, 0xcffc, 0xbf1b, 0xaf3a, 0x9f59, 0x8f78,
    0x9188, 0x81a9, 0xb1ca, 0xa1eb, 0xd10c, 0xc12d, 0xf14e, 0xe16f,
    0x1080, 0x00a1, 0x30c2, 0x20e3, 0x5004, 0x4025, 0x7046, 0x6067,
    0x83b9, 0x9398, 0xa3fb, 0xb3da, 0xc33d, 0xd31c, 0xe37f, 0xf35e,
    0x02b1, 0x1290, 0x22f3, 0x32d2, 0x4235, 0x5214, 0x6277, 0x7256,
    0xb5ea, 0xa5cb, 0x95a8, 0x8589, 0xf56e, 0xe54f, 0xd52c, 0xc50d,
    0x34e2, 0x24c3, 0x14a0, 0x0481, 0x7466, 0x6447, 0x5424, 0x4405,
    0xa7db, 0xb7fa, 0x8799, 0x97b8, 0xe75f, 0xf77e, 0xc71d, 0xd73c,
    0x26d3, 0x36f2, 0x0691, 0x16b0, 0x6657, 0x7676, 0x4615, 0x5634,
    0xd94c, 0xc96d, 0xf90e, 0xe92f, 0x99c8, 0x89e9, 0xb98a, 0xa9ab,
    0x5844, 0x4865, 0x7806, 0x6827, 0x18c0, 0x08e1, 0x3882, 0x28a3,
    0xcb7d, 0xdb5c, 0xeb3f, 0xfb1e, 0x8bf9, 0x9bd8, 0xabbb, 0xbb9a,
    0x4a75, 0x5a54, 0x6a37, 0x7a16, 0x0af1, 0x1ad0, 0x2ab3, 0x3a92,
    0xfd2e, 0xed0f, 0xdd6c, 0xcd4d, 0xbdaa, 0xad8b, 0x9de8, 0x8dc9,
    0x7c26, 0x6c07, 0x5c64, 0x4c45, 0x3ca2, 0x2c83, 0x1ce0, 0x0cc1,
    0xef1f, 0xff3e, 0xcf5d, 0xdf7c, 0xaf9b, 0xbfba, 0x8fd9, 0x9ff8,
    0x6e17, 0x7e36, 0x4e55, 0x5e74, 0x2e93, 0x3eb2, 0x0ed1, 0x1ef0 ]

/-- One round of the checksum loop:
`checkSum = crc16_tab[((checkSum >> 8) ^ array[i]) & 0xFF] ^ (checkSum << 8)`. The mask removes
what the sign extension of `array[i]` adds. -/
def crcStep (checkSum : UInt16) (b : UInt8) : UInt16 :=
  crc16Tab.getD ((checkSum >>> 8).toUInt8 ^^^ b).toNat 0 ^^^ (checkSum <<< 8)

/-- The checksum of a byte string, starting from `0`. -/
def crc (bytes : QByteArray) : UInt16 := bytes.foldl crcStep 0

/-- The bytes of a frame that the checksum covers: positions `1` to `length - 3`. -/
def covered (frame : QByteArray) : QByteArray := (frame.drop 1).take (frame.length - 3)

/-! ## The packet -/

/-- The outcome of a request as the program tells it to its listeners (`MESPack::FDATResult`). -/
inductive FDATResult where
  | non | sucess | failed | restart | notPermission | sucessSwingCard | notDownWork | notUpWork
  | nonSwingCard | sucessUpfile | failedUpfile
  | failPack | failClose | failSend | timeOut
  | regOk | regIpNon | regNon | regFileNon
  | fileDownAllow | fileDownVersionCmp | fileDownSpaceSmall | fileDownServerBusy | fileDownOther
  | fileDownData | fileDownAddErr | fileDownPakErr | checkSumErr
  deriving DecidableEq, Repr

structure MESPack where
  head : UInt8 := 0x5A
  func : UInt16 := 0
  length : UInt16 := 0
  /-- the checksum found in the frame -/
  checkSum : UInt16 := 0
  /-- the checksum calculated over the frame (`_checkSum`) -/
  checkSumCalc : UInt16 := 0
  checkFlag : Bool := false
  cmdSerial : UInt8 := 0
  body : QByteArray := []
  /-- read position in the body -/
  atPoint : Int := 0
  deriving DecidableEq, Repr

namespace MESPack

/-- The frame of a packet. `length` is a 16-bit field and the array is first resized to
`7 + length`; writing the body grows it if that was too small, hence the padding below. -/
def toByteArray (p : MESPack) : QByteArray :=
  let length : UInt16 := UInt16.ofNat (1 + p.body.length)
  let array : QByteArray :=
    [0x5A, p.func.toUInt8, (p.func >>> 8).toUInt8, length.toUInt8, (length >>> 8).toUInt8,
      p.cmdSerial] ++ p.body ++ List.replicate (7 + length.toNat - (6 + p.body.length)) 0
  let checkSum := crc (covered array)
  (array.set (5 + length.toNat) checkSum.toUInt8).set (6 + length.toNat) (checkSum >>> 8).toUInt8

/-- `((0x00FF & hi) << 8) | lo` with `lo` a signed character: a `lo` from `0x80` on overwrites the
high byte with ones. -/
def signedWord (lo hi : UInt8) : UInt16 := (hi.toUInt16 <<< 8) ||| lo.toInt8.toInt16.toUInt16

/-- `MESPack::parse`; it never fails, a wrong checksum only clears `checkFlag`. -/
def parse (buff : QByteArray) : MESPack :=
  let checkSum : UInt16 := ((buff.getD (buff.length - 1) 0).toUInt16 <<< 8) |||
    (buff.getD (buff.length - 2) 0).toUInt16
  let checkSumCalc := crc (covered buff)
  { head := buff.getD 0 0
    func := signedWord (buff.getD 1 0) (buff.getD 2 0)
    length := signedWord (buff.getD 3 0) (buff.getD 4 0)
    checkSum := checkSum
    checkSumCalc := checkSumCalc
    checkFlag := checkSumCalc == checkSum
    cmdSerial := buff.getD 5 0
    body := QByteArray.mid buff 6 ((buff.length : Int) - 6 - 2)
    atPoint := 0 }

/-! ### Reading the body field by field -/

/-- `count`, the size of the body. -/
def count (p : MESPack) : Nat := p.body.length

def isReadEnd (p : MESPack) : Bool := p.atPoint == p.count

def readQUint8 (p : MESPack) : UInt8 × MESPack :=
  (QByteArray.byteAt p.body p.atPoint, { p with atPoint := p.atPoint + 1 })

/-- `readByte` copies `len` bytes out of `body.mid(atPoint, len)`; where the body is too short the
bytes copied lie behind the array, and are `0` here. -/
def readByte (p : MESPack) (len : Nat) : QByteArray × MESPack :=
  let array := QByteArray.mid p.body p.atPoint len
  (array ++ List.replicate (len - array.length) 0, { p with atPoint := p.atPoint + len })

def readQUint16 (p : MESPack) : UInt16 × MESPack :=
  let (v, p) := p.readByte 2
  (UInt16.ofNat (leWord (v.getD 0 0) (v.getD 1 0)), p)

def readQUint32 (p : MESPack) : UInt32 × MESPack :=
  let (v, p) := p.readByte 4
  (UInt32.ofNat (leWord (v.getD 0 0) (v.getD 1 0) + 65536 * leWord (v.getD 2 0) (v.getD 3 0)), p)

def readToQString (p : MESPack) (len : Int) : QString × MESPack :=
  (QByteArray.toQString (QByteArray.mid p.body p.atPoint len), { p with atPoint := p.atPoint + len })

def readToQByteArray (p : MESPack) (len : Int) : QByteArray × MESPack :=
  (QByteArray.mid p.body p.atPoint len, { p with atPoint := p.atPoint + len })

/-- `readQDateTime`: `time.date()` and `time.time()` are copies, and it is these that the six bytes
are written to; `time` itself is still null when it is returned. -/
def readQDateTime (p : MESPack) : QDateTime × MESPack :=
  (none, { p with atPoint := p.atPoint + 6 })

end MESPack

/-! ## Building a frame -/

namespace MESPack

variable {p : MESPack}

/-- The bytes a frame starts with, before the body. -/
def header (p : MESPack) : QByteArray :=
  let length : UInt16 := UInt16.ofNat (1 + p.body.length)
  [0x5A, p.func.toUInt8, (p.func >>> 8).toUInt8, length.toUInt8, (length >>> 8).toUInt8, p.cmdSerial]

/-- The checksum a frame carries. -/
def sum (p : MESPack) : UInt16 := crc (p.header.drop 1 ++ p.body)

@[simp] theorem length_header : p.header.length = 6 := rfl

/-- Overwriting the last two bytes of an array. -/
theorem set_last_two (l : QByteArray) (a b x y : UInt8) :
    ((l ++ [a, b]).set l.length x).set (l.length + 1) y = l ++ [x, y] := by
  rw [List.set_append_right _ _ (Nat.le_refl _), List.set_append_right _ _ (by omega)]
  simp

/-- The checksum covers everything between the head byte and the last two bytes. -/
theorem covered_append (h x y : UInt8) (l : QByteArray) : covered (h :: l ++ [x, y]) = l := by
  simp [covered]

/-- For a body that the 16-bit length field can announce, the frame is header, body and checksum. -/
theorem toByteArray_eq (h : p.body.length ≤ 65534) :
    p.toByteArray = p.header ++ p.body ++ [p.sum.toUInt8, (p.sum >>> 8).toUInt8] := by
  have hlen : (UInt16.ofNat (1 + p.body.length)).toNat = 1 + p.body.length := by
    rw [UInt16.toNat_ofNat']
    omega
  have hpad : 7 + (1 + p.body.length) - (6 + p.body.length) = 2 := by omega
  have hpos : 5 + (1 + p.body.length) = (p.header ++ p.body).length := by
    rw [List.length_append, length_header]
    omega
  have hpos' : 6 + (1 + p.body.length) = (p.header ++ p.body).length + 1 := by omega
  have hcov : covered (p.header ++ p.body ++ [0, 0]) = p.header.drop 1 ++ p.body :=
    covered_append 0x5A 0 0 (p.header.drop 1 ++ p.body)
  show ((p.header ++ p.body ++ List.replicate _ 0).set _ _).set _ _ = _
  rw [hlen, hpad, hpos, hpos']
  show ((p.header ++ p.body ++ [0, 0]).set _ (crc (covered (p.header ++ p.body ++ [0, 0]))).toUInt8).set
    _ (crc (covered (p.header ++ p.body ++ [0, 0])) >>> 8).toUInt8 = _
  rw [hcov, set_last_two]
  rfl

theorem length_toByteArray (h : p.body.length ≤ 65534) :
    p.toByteArray.length = p.body.length + 8 := by
  rw [toByteArray_eq h]
  simp
  omega

/-- A checksum split into its two bytes and put together again. -/
theorem checkSum_bytes (w : UInt16) :
    (((w >>> 8).toUInt8.toUInt16 <<< 8) ||| w.toUInt8.toUInt16) = w := by
  apply UInt16.toBitVec_inj.mp
  simp only [UInt16.toBitVec_or, UInt16.toBitVec_shiftLeft, UInt8.toBitVec_toUInt16,
    UInt16.toBitVec_toUInt8, UInt16.toBitVec_shiftRight]
  ext i hi
  by_cases h8 : i < 8
  · simp [h8, BitVec.getLsbD_eq_getElem hi]
  · have hlt : i - 8 < 8 := by omega
    have hadd : 8 + (i - 8) = i := by omega
    simp [h8, hlt, hadd, BitVec.getLsbD_eq_getElem hi]

/-- What is built is read back: command, body, and a checksum that matches. -/
theorem parse_toByteArray (h : p.body.length ≤ 65534) :
    (parse p.toByteArray).cmdSerial = p.cmdSerial ∧ (parse p.toByteArray).body = p.body ∧
      (parse p.toByteArray).checkFlag = true := by
  have hlen := length_toByteArray h
  have heq := toByteArray_eq h
  have hcov : covered p.toByteArray = p.header.drop 1 ++ p.body := by
    rw [heq]
    exact covered_append 0x5A _ _ (p.header.drop 1 ++ p.body)
  have hsz : (p.header ++ p.body).length = p.body.length + 6 := by
    rw [List.length_append, length_header]
    omega
  -- the checksum is found where it was put, low byte first
  have hlast : p.toByteArray.getD (p.toByteArray.length - 1) 0 = (p.sum >>> 8).toUInt8 := by
    rw [hlen, heq, List.getD_append_right _ _ _ _ (by omega), hsz]
    simp
  have hlast' : p.toByteArray.getD (p.toByteArray.length - 2) 0 = p.sum.toUInt8 := by
    rw [hlen, heq, List.getD_append_right _ _ _ _ (by omega), hsz]
    simp
  refine ⟨?_, ?_, ?_⟩
  · show p.toByteArray.getD 5 0 = p.cmdSerial
    rw [heq]
    rfl
  · show QByteArray.mid p.toByteArray 6 ((p.toByteArray.length : Int) - 6 - 2) = p.body
    unfold QByteArray.mid
    rw [if_neg (by omega), if_neg (by omega), hlen, heq]
    have htake : ((p.body.length + 8 : Nat) - 6 - 2 : Int).toNat = p.body.length := by omega
    rw [htake, List.append_assoc]
    show List.take p.body.length (p.body ++ [_, _]) = p.body
    rw [List.take_left]
  · show (crc (covered p.toByteArray) ==
      ((p.toByteArray.getD (p.toByteArray.length - 1) 0).toUInt16 <<< 8 |||
        (p.toByteArray.getD (p.toByteArray.length - 2) 0).toUInt16)) = true
    rw [hcov, hlast, hlast', checkSum_bytes]
    exact beq_self_eq_true _

end MESPack

end ProgrammingPath.Mes
