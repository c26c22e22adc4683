import Mathlib.Algebra.Group.Nat.Defs
import ProgrammingPath.Rtsp.Reader

/-!
# `h264_decode_sps`

A sequence parameter set is decoded where it lies: `de_emulation_prevention` first takes the byte `03` out
of every `00 00 03`, in the buffer of the packet, and the bits are read afterwards. The length that was
decreased stays in `h264_decode_sps`. What the bits tell is printed, so only two things matter outside: what
becomes of the bytes, and whether the function comes to its end.
-/

namespace ProgrammingPath.Rtsp

open ProgrammingPath.Lib

/-! ## Emulation prevention -/

/-- `00 00 03` at `i`. -/
def EmulationAt (buf : List UInt8) (i : Nat) : Prop :=
  buf.getD i 0 = 0 ∧ buf.getD (i + 1) 0 = 0 ∧ buf.getD (i + 2) 0 = 3

instance (buf : List UInt8) (i : Nat) : Decidable (EmulationAt buf i) :=
  inferInstanceAs (Decidable (_ ∧ _ ∧ _))

/-- The inner loop of `de_emulation_prevention`: the bytes behind byte `k` move down by one, and the last
one stays. -/
def moveDown (buf : List UInt8) (k : Nat) : List UInt8 :=
  buf.take k ++ (buf.drop (k + 1) ++ buf.getLast?.toList)

/-- The outer loop from `i` on: the bytes, and by how many `*buf_size` was decreased. -/
def deEmulationLoop : Nat → Nat → List UInt8 × Nat → List UInt8 × Nat
  | 0, _, r => r
  | turns + 1, i, (buf, removed) =>
    deEmulationLoop turns (i + 1)
      (if EmulationAt buf i then (moveDown buf (i + 2), removed + 1) else (buf, removed))

/-- `de_emulation_prevention` of at least two bytes: the bytes and `*buf_size`. -/
def deEmulationPrevention (buf : List UInt8) : List UInt8 × Nat :=
  let r := deEmulationLoop (buf.length - 2) 0 (buf, 0)
  (r.1, buf.length - r.2)

/-- Behind every `00 00 03` there are only bytes `03`. -/
def Intact (buf : List UInt8) : Prop :=
  ∀ i < buf.length - 2, EmulationAt buf i → ∀ b ∈ buf.drop (i + 3), b = 3

instance (buf : List UInt8) : Decidable (Intact buf) :=
  inferInstanceAs (Decidable (∀ i < buf.length - 2, EmulationAt buf i → ∀ b ∈ buf.drop (i + 3), b = 3))

/-! ## Which bytes stay -/

section

variable {buf : List UInt8} {k i turns removed : Nat}

/-- The byte that goes and the last one of those behind it. -/
theorem exists_moveDown (hk : k < buf.length) :
    ∃ front b back z, front.length = k ∧ buf = front ++ b :: back ∧ (b :: back).getLast? = some z ∧
      moveDown buf k = front ++ (back ++ [z]) := by
  have hbuf : buf = buf.take k ++ buf[k] :: buf.drop (k + 1) := by
    rw [← List.drop_eq_getElem_cons hk, List.take_append_drop]
  have hne : buf[k] :: buf.drop (k + 1) ≠ [] := List.cons_ne_nil _ _
  refine ⟨buf.take k, buf[k], buf.drop (k + 1), _, ?_, hbuf, List.getLast?_eq_some_getLast hne, ?_⟩
  · rw [List.length_take, Nat.min_eq_left (Nat.le_of_lt hk)]
  · have hlast : buf.getLast? = some ((buf[k] :: buf.drop (k + 1)).getLast hne) := by
      rw [← List.getLast?_eq_some_getLast hne]
      conv => lhs; rw [hbuf]
      rw [List.getLast?_append, List.getLast?_eq_some_getLast hne, Option.some_or]
    rw [moveDown, hlast]
    rfl

theorem length_moveDown (hk : k < buf.length) : (moveDown buf k).length = buf.length := by
  obtain ⟨front, b, back, z, -, hbuf, -, hmove⟩ := exists_moveDown hk
  rw [hmove, hbuf]
  simp

/-- The bytes in front of it stay. -/
theorem headD_moveDown (hk : k < buf.length) (hpos : 0 < k) :
    (moveDown buf k).headD 0 = buf.headD 0 := by
  obtain ⟨front, b, back, z, hfront, hbuf, -, hmove⟩ := exists_moveDown hk
  obtain ⟨c, cs, rfl⟩ := List.exists_cons_of_length_pos (show 0 < front.length by omega)
  rw [hmove, hbuf]
  rfl

/-- When only bytes `03` lie behind a byte `03`, nothing changes. -/
theorem moveDown_eq_self (hk : k < buf.length) (h3 : buf.getD k 0 = 3)
    (hback : ∀ b ∈ buf.drop (k + 1), b = 3) : moveDown buf k = buf := by
  obtain ⟨front, b, back, z, hfront, hbuf, hz, hmove⟩ := exists_moveDown hk
  subst hfront
  rw [hbuf, List.getD_append_right _ _ _ _ (Nat.le_refl _), Nat.sub_self, List.getD_cons_zero] at h3
  rw [hbuf, List.drop_length_add_append, List.drop_succ_cons, List.drop_zero] at hback
  have hrep : b :: back = List.replicate (back.length + 1) 3 :=
    List.eq_replicate_iff.mpr ⟨rfl, List.forall_mem_cons.mpr ⟨h3, hback⟩⟩
  have hz3 : z = 3 := by
    rw [hrep] at hz
    exact List.eq_of_mem_replicate (List.mem_of_getLast? hz)
  have hbackRep : back = List.replicate back.length 3 :=
    List.eq_replicate_iff.mpr ⟨rfl, hback⟩
  rw [hmove, hbuf, hrep, hz3, List.replicate_succ', ← hbackRep]

/-- The weight of the bytes other than `03`: the further in front, the more. -/
def weight : List UInt8 → Nat
  | [] => 0
  | b :: bs => (if b = 3 then 0 else bs.length + 1) + weight bs

theorem weight_append (front : List UInt8) {xs ys : List UInt8} (h : xs.length = ys.length) :
    weight (front ++ xs) + weight ys = weight (front ++ ys) + weight xs := by
  induction front with
  | nil => exact Nat.add_comm _ _
  | cons b front ih =>
    simp only [List.cons_append, weight, List.length_append, h]
    omega

theorem weight_concat (xs : List UInt8) (z : UInt8) :
    weight xs + xs.countP (· != 3) ≤ weight (xs ++ [z]) := by
  induction xs with
  | nil => exact Nat.zero_le _
  | cons b xs ih =>
    simp only [List.cons_append, weight, List.length_append, List.length_singleton,
      List.countP_cons, bne_iff_ne]
    by_cases hb : b = 3
    · simp only [hb, if_true, ne_eq, not_true_eq_false, if_false]
      omega
    · simp only [hb, if_false, ne_eq, not_false_eq_true, if_true]
      omega

/-- A byte other than `03` that moves down makes the bytes heavier. -/
theorem weight_moveDown (hk : k < buf.length) (h3 : buf.getD k 0 = 3) :
    weight buf + (buf.drop (k + 1)).countP (· != 3) ≤ weight (moveDown buf k) := by
  obtain ⟨front, b, back, z, hfront, hbuf, -, hmove⟩ := exists_moveDown hk
  subst hfront
  rw [hbuf, List.getD_append_right _ _ _ _ (Nat.le_refl _), Nat.sub_self, List.getD_cons_zero] at h3
  rw [hmove, hbuf, List.drop_length_add_append, List.drop_succ_cons, List.drop_zero]
  have hlen : (b :: back).length = (back ++ [z]).length := by simp
  have hfrontWeight := weight_append front hlen
  have hback := weight_concat back z
  have hb : weight (b :: back) = weight back := by simp only [weight, h3, if_true, Nat.zero_add]
  omega

/-- What every move keeps, the outer loop keeps, and the number of bytes. -/
theorem deEmulationLoop_keeps {P : List UInt8 → Prop} {n : Nat}
    (hmove : ∀ bs j, bs.length = n → j + 2 < n → EmulationAt bs j → P bs → P (moveDown bs (j + 2)))
    (r : List UInt8 × Nat) (hlen : r.1.length = n) (h : i + turns + 2 ≤ n) (hP : P r.1) :
    (deEmulationLoop turns i r).1.length = n ∧ P (deEmulationLoop turns i r).1 := by
  induction turns generalizing i r with
  | zero => exact ⟨hlen, hP⟩
  | succ turns ih =>
    obtain ⟨buf, removed⟩ := r
    change buf.length = n at hlen
    rw [deEmulationLoop]
    split
    · next hat =>
      have hmoved : (moveDown buf (i + 2)).length = n := (length_moveDown (by omega)).trans hlen
      exact ih (moveDown buf (i + 2), removed + 1) hmoved (by omega) (hmove buf i hlen (by omega) hat hP)
    · exact ih (buf, removed) hlen (by omega) hP

theorem length_deEmulationLoop (r : List UInt8 × Nat) (h : i + turns + 2 ≤ r.1.length) :
    (deEmulationLoop turns i r).1.length = r.1.length :=
  (deEmulationLoop_keeps (P := fun _ => True) (fun _ _ _ _ _ _ => trivial) r rfl h trivial).1

theorem headD_deEmulationLoop (r : List UInt8 × Nat) (h : i + turns + 2 ≤ r.1.length) :
    (deEmulationLoop turns i r).1.headD 0 = r.1.headD 0 := by
  refine (deEmulationLoop_keeps (P := fun bs => bs.headD 0 = r.1.headD 0) ?_ r rfl h rfl).2
  intro bs j hlen hj _ hhead
  exact (headD_moveDown (by omega) (by omega)).trans hhead

theorem weight_le_deEmulationLoop (r : List UInt8 × Nat) (h : i + turns + 2 ≤ r.1.length) :
    weight r.1 ≤ weight (deEmulationLoop turns i r).1 := by
  refine (deEmulationLoop_keeps (P := fun bs => weight r.1 ≤ weight bs) ?_ r rfl h (Nat.le_refl _)).2
  intro bs j hlen hj hat hle
  calc weight r.1
      ≤ weight bs := hle
    _ ≤ weight (moveDown bs (j + 2)) := Nat.le_trans (Nat.le_add_right _ _) (weight_moveDown (by omega) hat.2.2)

/-- The bytes stay as they are when no turn has a byte other than `03` to move. The first one that has makes
them heavier, and no later one takes that back. -/
theorem deEmulationLoop_eq_iff (h : i + turns + 2 ≤ buf.length) :
    (deEmulationLoop turns i (buf, removed)).1 = buf ↔
      ∀ j, i ≤ j → j < i + turns → EmulationAt buf j → ∀ b ∈ buf.drop (j + 3), b = 3 := by
  induction turns generalizing i removed with
  | zero =>
    refine ⟨fun _ j hij hj => ?_, fun _ => rfl⟩
    omega
  | succ turns ih =>
    have hnext : i + 1 + turns + 2 ≤ buf.length := by omega
    -- the turns behind the first one
    have hsplit (hfirst : EmulationAt buf i → ∀ b ∈ buf.drop (i + 3), b = 3) :
        (∀ j, i + 1 ≤ j → j < i + 1 + turns → EmulationAt buf j → ∀ b ∈ buf.drop (j + 3), b = 3) ↔
          ∀ j, i ≤ j → j < i + (turns + 1) → EmulationAt buf j → ∀ b ∈ buf.drop (j + 3), b = 3 := by
      constructor
      · intro hall j hij hj
        rcases Nat.eq_or_lt_of_le hij with rfl | hlt
        · exact hfirst
        · exact hall j hlt (by omega)
      · exact fun hall j hij hj => hall j (by omega) (by omega)
    rw [deEmulationLoop]
    by_cases hat : EmulationAt buf i
    · rw [if_pos hat]
      by_cases hback : ∀ b ∈ buf.drop (i + 3), b = 3
      · rw [moveDown_eq_self (by omega) hat.2.2 hback, ih hnext]
        exact hsplit fun _ => hback
      · refine ⟨fun heq => ?_, fun hall => absurd (hall i le_rfl (by omega) hat) hback⟩
        have hmove := weight_moveDown (show i + 2 < buf.length by omega) hat.2.2
        have hlen : (moveDown buf (i + 2)).length = buf.length := length_moveDown (by omega)
        have hrest : weight (moveDown buf (i + 2)) ≤
            weight (deEmulationLoop turns (i + 1) (moveDown buf (i + 2), removed + 1)).1 :=
          weight_le_deEmulationLoop (moveDown buf (i + 2), removed + 1)
            (show i + 1 + turns + 2 ≤ (moveDown buf (i + 2)).length by omega)
        have hcount : 0 < (buf.drop (i + 3)).countP (· != 3) := by
          rw [List.countP_pos_iff]
          simpa using hback
        rw [heq] at hrest
        have : (buf.drop (i + 2 + 1)).countP (· != 3) = (buf.drop (i + 3)).countP (· != 3) := rfl
        omega
    · rw [if_neg hat, ih hnext]
      exact hsplit fun h => absurd h hat

/-- `de_emulation_prevention` leaves the bytes alone when they are intact, and only then. -/
theorem deEmulationPrevention_eq_iff (h : 2 ≤ buf.length) :
    (deEmulationPrevention buf).1 = buf ↔ Intact buf := by
  show (deEmulationLoop (buf.length - 2) 0 (buf, 0)).1 = buf ↔ _
  rw [deEmulationLoop_eq_iff (by omega), Intact]
  constructor
  · exact fun hall i hi => hall i (Nat.zero_le i) (by omega)
  · exact fun hall i _ hi => hall i (by omega)

theorem length_deEmulationPrevention (h : 2 ≤ buf.length) :
    (deEmulationPrevention buf).1.length = buf.length :=
  length_deEmulationLoop (buf, 0) (show 0 + (buf.length - 2) + 2 ≤ buf.length by omega)

theorem headD_deEmulationPrevention (h : 2 ≤ buf.length) :
    (deEmulationPrevention buf).1.headD 0 = buf.headD 0 :=
  headD_deEmulationLoop (buf, 0) (show 0 + (buf.length - 2) + 2 ≤ buf.length by omega)

end

/-! ## The bits -/

/-- What works on `*nStartBit`; `none` when it does not come to its end. -/
abbrev Bits (α : Type) := StateT Nat Option α

section

variable (mem : Mem) (off : Int)

/-- The bit at `*nStartBit` of the unit at `off`. Behind the buffer there is nothing to read. -/
def bit : Bits Nat := fun startBit =>
  if off + (startBit / 8 : Nat) < buffRtcpRtpSize then
    some (((mem (off + (startBit / 8 : Nat))).toNat / 2 ^ (7 - startBit % 8)) % 2, startBit + 1)
  else none

/-- `u`: so many bits, the highest first. -/
def u : Nat → Bits Nat
  | 0 => pure 0
  | bitCount + 1 => do
    let high ← u bitCount
    let low ← bit mem off
    pure (2 * high + low)

/-- The first loop of `Ue`: how many bits are 0, of at most so many. -/
def nZeroNum : Nat → Bits Nat
  | 0 => pure 0
  | left + 1 => fun startBit => do
    let (b, next) ← bit mem off startBit
    if b = 1 then some (0, startBit)
    else
      let (n, next) ← nZeroNum left next
      some (n + 1, next)

/-- `Ue`. A shift by 32 or more is taken as the machine takes it, by the lowest five bits. -/
def ue (nLen : Nat) : Bits Nat := do
  let startBit ← get
  let n ← nZeroNum mem off (8 * nLen - startBit)
  modify (· + 1)
  let ret ← u mem off n
  pure ((2 ^ (n % 32) + 2 ^ 32 - 1 + ret) % 2 ^ 32)

/-- `Se`, whose value nobody reads. -/
def se (nLen : Nat) : Bits Unit := do
  let _ ← ue mem off nLen

/-- `offset_for_ref_frame`. -/
def offsetForRefFrame (nLen : Nat) : Nat → Bits Unit
  | 0 => pure ()
  | n + 1 => do
    se mem off nLen
    offsetForRefFrame nLen n

/-- `time_scale / num_units_in_tick`, two numbers with a sign: the quotient must exist. -/
def fpsExists (timeScale numUnitsInTick : Nat) : Bool :=
  numUnitsInTick ≠ 0 ∧ ¬(timeScale = 2 ^ 31 ∧ numUnitsInTick = 2 ^ 32 - 1)

/-- The part of `h264_decode_sps` on the video usability information. -/
def decodeVui (nLen : Nat) : Bits Unit := do
  let aspectRatioInfoPresentFlag ← u mem off 1
  if aspectRatioInfoPresentFlag ≠ 0 then
    let aspectRatioIdc ← u mem off 8
    if aspectRatioIdc = 255 then
      let _sarWidth ← u mem off 16
      let _sarHeight ← u mem off 16
  let overscanInfoPresentFlag ← u mem off 1
  if overscanInfoPresentFlag ≠ 0 then
    let _overscanAppropriateFlag ← u mem off 1
  let videoSignalTypePresentFlag ← u mem off 1
  if videoSignalTypePresentFlag ≠ 0 then
    let _videoFormat ← u mem off 3
    let _videoFullRangeFlag ← u mem off 1
    let colourDescriptionPresentFlag ← u mem off 1
    if colourDescriptionPresentFlag ≠ 0 then
      let _colourPrimaries ← u mem off 8
      let _transferCharacteristics ← u mem off 8
      let _matrixCoefficients ← u mem off 8
  let chromaLocInfoPresentFlag ← u mem off 1
  if chromaLocInfoPresentFlag ≠ 0 then
    let _topField ← ue mem off nLen
    let _bottomField ← ue mem off nLen
  let timingInfoPresentFlag ← u mem off 1
  if timingInfoPresentFlag ≠ 0 then
    let numUnitsInTick ← u mem off 32
    let timeScale ← u mem off 32
    let _fixedFrameRateFlag ← u mem off 1
    if ¬fpsExists timeScale numUnitsInTick then failure

/-- `h264_decode_sps` behind `de_emulation_prevention`. -/
def decodeBits (nLen : Nat) : Bits Unit := do
  let _forbiddenZeroBit ← u mem off 1
  let _nalRefIdc ← u mem off 2
  let nalUnitType ← u mem off 5
  if nalUnitType = 7 then
    let profileIdc ← u mem off 8
    let _constraintSetFlags ← u mem off 4
    let _reservedZero4bits ← u mem off 4
    let _levelIdc ← u mem off 8
    let _seqParameterSetId ← ue mem off nLen
    if profileIdc = 100 ∨ profileIdc = 110 ∨ profileIdc = 122 ∨ profileIdc = 144 then
      let chromaFormatIdc ← ue mem off nLen
      if chromaFormatIdc = 3 then
        let _residualColourTransformFlag ← u mem off 1
      let _bitDepthLumaMinus8 ← ue mem off nLen
      let _bitDepthChromaMinus8 ← ue mem off nLen
      let _qpprimeYZeroTransformBypassFlag ← u mem off 1
      let seqScalingMatrixPresentFlag ← u mem off 1
      if seqScalingMatrixPresentFlag ≠ 0 then
        let _seqScalingListPresentFlag ← u mem off 8
    let _log2MaxFrameNumMinus4 ← ue mem off nLen
    let picOrderCntType ← ue mem off nLen
    if picOrderCntType = 0 then
      let _log2MaxPicOrderCntLsbMinus4 ← ue mem off nLen
    else if picOrderCntType = 1 then
      let _deltaPicOrderAlwaysZeroFlag ← u mem off 1
      se mem off nLen
      se mem off nLen
      let numRefFramesInPicOrderCntCycle ← ue mem off nLen
      -- from `2 ^ 31` on the number is below zero, and the loop has no turn
      if numRefFramesInPicOrderCntCycle < 2 ^ 31 then
        offsetForRefFrame mem off nLen numRefFramesInPicOrderCntCycle
    let _numRefFrames ← ue mem off nLen
    let _gapsInFrameNumValueAllowedFlag ← u mem off 1
    let _picWidthInMbsMinus1 ← ue mem off nLen
    let _picHeightInMapUnitsMinus1 ← ue mem off nLen
    let frameMbsOnlyFlag ← u mem off 1
    if frameMbsOnlyFlag = 0 then
      let _mbAdaptiveFrameFieldFlag ← u mem off 1
    let _direct8x8InferenceFlag ← u mem off 1
    let frameCroppingFlag ← u mem off 1
    if frameCroppingFlag ≠ 0 then
      let _frameCropLeftOffset ← ue mem off nLen
      let _frameCropRightOffset ← ue mem off nLen
      let _frameCropTopOffset ← ue mem off nLen
      let _frameCropBottomOffset ← ue mem off nLen
    let vuiParameterPresentFlag ← u mem off 1
    if vuiParameterPresentFlag ≠ 0 then
      decodeVui mem off nLen

/-- `h264_decode_sps` of the unit of so many bytes at `off`: the memory afterwards; `none` when the function
does not come to its end. -/
def h264DecodeSps (nLen : Nat) : Option Mem :=
  -- the loop of `de_emulation_prevention` runs up to `nLen - 2` without a sign
  if nLen < 2 then none
  else
    let r := deEmulationPrevention (mem.bytes off nLen)
    ((decodeBits (mem.write off r.1) off r.2).run 0).map fun _ => mem.write off r.1

end

end ProgrammingPath.Rtsp
