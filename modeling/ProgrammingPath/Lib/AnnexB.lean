import Mathlib.Data.List.Infix

/-!
# Byte streams of NAL units

The byte stream format of H.264 and H.265 (Annex B): NAL units between start codes of three or four
bytes. Zero bytes may stand before a start code and at the end.
-/

namespace ProgrammingPath.Lib

/-- A NAL unit: no start code is in it, and its last byte is not zero. -/
structure Nal where
  bytes : List UInt8
  ne_nil : bytes ≠ []
  no_code : ¬[0, 0, 1] <:+: bytes
  last_ne : ∀ b ∈ bytes.getLast?, b ≠ 0
  deriving DecidableEq

/-- A NAL unit with its start code, and the zero bytes before the three bytes `00 00 01`: none for the
short code, one for the long one. -/
structure NalUnit where
  zeros : Nat
  nal : Nal

def NalUnit.bytes (u : NalUnit) : List UInt8 := List.replicate u.zeros 0 ++ 0 :: 0 :: 1 :: u.nal.bytes

/-- A buffer of NAL units, with the zero bytes behind the last one. -/
structure AnnexB where
  units : List NalUnit
  trailing : Nat

def AnnexB.bytes (b : AnnexB) : List UInt8 := b.units.flatMap NalUnit.bytes ++ List.replicate b.trailing 0

def AnnexB.nals (b : AnnexB) : List Nal := b.units.map NalUnit.nal

/-- The first byte of a NAL unit, which gives its type. -/
def Nal.head (n : Nal) : UInt8 := n.bytes.head n.ne_nil

theorem Nal.head?_append (n : Nal) (rest : List UInt8) : (n.bytes ++ rest).head? = some n.head := by
  rw [List.head?_append, List.head?_eq_some_head n.ne_nil]
  rfl

theorem Nal.length_pos (n : Nal) : 0 < n.bytes.length := List.length_pos_iff.mpr n.ne_nil

/-- The buffer with one unit more at the front. -/
theorem AnnexB.bytes_cons (u : NalUnit) (us : List NalUnit) (trailing : Nat) :
    (AnnexB.mk (u :: us) trailing).bytes =
      List.replicate u.zeros 0 ++ 0 :: 0 :: 1 :: (u.nal.bytes ++ (AnnexB.mk us trailing).bytes) := by
  simp [AnnexB.bytes, NalUnit.bytes]

theorem AnnexB.length_units_le (us : List NalUnit) (trailing : Nat) :
    us.length ≤ (AnnexB.mk us trailing).bytes.length := by
  induction us with
  | nil => exact Nat.zero_le _
  | cons u us ih =>
    rw [AnnexB.bytes_cons]
    simp only [List.length_append, List.length_cons]
    omega

end ProgrammingPath.Lib
