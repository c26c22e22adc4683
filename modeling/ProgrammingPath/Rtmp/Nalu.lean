import ProgrammingPath.Lib.AnnexB

/-!
# Splitting a buffer into NAL units

`_nalu_find` and `_nalu_find_access_unit` in `rtmp_h264.c`, and the loop that `RTMPStreamOut_Send` and
`RTMPStreamOut_SendH265` have in common. In a buffer of NAL units the loop comes to each of them once,
with the zero bytes behind it that are not part of the next start code (`slots`).
-/

namespace ProgrammingPath.Rtmp

open ProgrammingPath.Lib

/-! ## The splitter -/

/-- The loop of `_nalu_find`: the position behind a start code, and `leading`. -/
def naluFindFrom : Nat → Nat → List UInt8 → Option (Nat × Nat)
  | i, zeros, b :: c :: rest =>
    if b = 1 ∧ 2 ≤ zeros then some (i + 1, min zeros 3 + 1)
    else naluFindFrom (i + 1) (if b = 0 then zeros + 1 else 0) (c :: rest)
  | _, _, _ => none

/-- `_nalu_find(p, bytes, &leading)`. -/
def naluFind (p : List UInt8) (bytes : Nat) : Option (Nat × Nat) := naluFindFrom 0 0 (p.take bytes)

/-- What `_nalu_find_access_unit` returns, and its two positions. -/
structure AccessUnit where
  posStart : Nat
  naluPos : Nat
  posEnd : Nat
  deriving DecidableEq, Repr

/-- `_nalu_find_access_unit(data, bytes, ...)`. -/
def naluFindAccessUnit (data : List UInt8) (bytes : Nat) : Option AccessUnit :=
  match naluFind data bytes with
  | none => none
  | some (n, leading) =>
    match naluFind (data.drop n) (bytes - n) with
    | none => some ⟨n - leading, n, bytes⟩
    | some (next, leading') => some ⟨n - leading, n, n + next - leading'⟩

/-- The loop over the units; `step` gets the memory from `start` on. A turn takes at least one byte, so
`fuel` bytes are turns enough. -/
def unitLoop {σ : Type} (step : σ → List UInt8 → AccessUnit → Option σ) :
    Nat → σ → List UInt8 → Nat → Option σ
  | 0, s, _, _ => some s
  | fuel + 1, s, start, left =>
    match naluFindAccessUnit start left with
    | none => some s
    | some u => do
      let s ← step s start u
      unitLoop step fuel s (start.drop u.posEnd) (left - u.posEnd)

/-! ## In a buffer of NAL units -/

/-- No start code ends in `w` when so many zero bytes are before it. -/
def NoCode (zeros : Nat) (w : List UInt8) : Prop := ¬[0, 0, 1] <:+: List.replicate zeros 0 ++ w

/-- The number of zero bytes that the search has seen last. -/
def zerosAfter (zeros : Nat) (w : List UInt8) : Nat :=
  w.foldl (fun z b => if b = 0 then z + 1 else 0) zeros

theorem NoCode.tail {zeros : Nat} {b : UInt8} {w : List UInt8} (h : NoCode zeros (b :: w)) :
    NoCode (if b = 0 then zeros + 1 else 0) w := by
  intro hin
  apply h
  split at hin
  · next hb =>
    rw [hb]
    rwa [List.replicate_succ', List.append_assoc] at hin
  · rw [List.replicate_zero, List.nil_append] at hin
    exact hin.trans ⟨List.replicate zeros 0 ++ [b], [], by simp⟩

theorem NoCode.head {zeros : Nat} {b : UInt8} {w : List UInt8} (h : NoCode zeros (b :: w)) :
    ¬(b = 1 ∧ 2 ≤ zeros) := by
  rintro ⟨rfl, hzeros⟩
  obtain ⟨k, rfl⟩ := Nat.exists_eq_add_of_le' hzeros
  refine h ⟨List.replicate k 0, w, ?_⟩
  rw [List.replicate_succ', List.replicate_succ']
  simp

/-- Bytes without a start code are gone through. -/
theorem naluFindFrom_append {w : List UInt8} {zeros : Nat} (hw : NoCode zeros w) (i : Nat) (b : UInt8)
    (rest : List UInt8) :
    naluFindFrom i zeros (w ++ b :: rest) =
      naluFindFrom (i + w.length) (zerosAfter zeros w) (b :: rest) := by
  induction w generalizing i zeros with
  | nil => rfl
  | cons a w ih =>
    obtain ⟨c, more, hmore⟩ : ∃ c more, w ++ b :: rest = c :: more :=
      List.exists_cons_of_ne_nil (by simp)
    rw [List.cons_append, hmore, naluFindFrom, if_neg hw.head, ← hmore, ih hw.tail, List.length_cons,
      Nat.add_right_comm, Nat.add_assoc]
    rfl

/-- And nothing is found in them. -/
theorem naluFindFrom_none {w : List UInt8} {zeros : Nat} (hw : NoCode zeros w) (i : Nat) :
    naluFindFrom i zeros w = none := by
  induction w generalizing i zeros with
  | nil => rfl
  | cons a w ih =>
    cases w with
    | nil => rfl
    | cons c more => rw [naluFindFrom, if_neg hw.head, ih hw.tail]

theorem naluFindFrom_code {zeros : Nat} (hzeros : 2 ≤ zeros) (i : Nat) (b : UInt8) (rest : List UInt8) :
    naluFindFrom i zeros (1 :: b :: rest) = some (i + 1, min zeros 3 + 1) := by
  rw [naluFindFrom, if_pos ⟨rfl, hzeros⟩]

theorem zerosAfter_replicate (zeros k : Nat) : zerosAfter zeros (List.replicate k 0) = zeros + k := by
  induction k generalizing zeros with
  | zero => rfl
  | succ k ih =>
    show zerosAfter (zeros + 1) (List.replicate k 0) = _
    rw [ih]
    omega

theorem zerosAfter_of_last {w : List UInt8} (hne : w ≠ []) (hlast : ∀ b ∈ w.getLast?, b ≠ 0)
    (zeros : Nat) : zerosAfter zeros w = 0 := by
  rw [← List.dropLast_append_getLast hne, zerosAfter, List.foldl_append, List.foldl_cons,
    List.foldl_nil, if_neg]
  exact hlast _ (List.getLast?_eq_some_getLast hne)

/-- Zero bytes do not end a start code. -/
theorem NoCode.append_zeros {zeros : Nat} {w : List UInt8} (h : NoCode zeros w) (pad : Nat) :
    NoCode zeros (w ++ List.replicate pad 0) := by
  induction pad with
  | zero => rwa [List.replicate_zero, List.append_nil]
  | succ pad ih =>
    rw [NoCode, List.replicate_succ', ← List.append_assoc, ← List.append_assoc, List.infix_concat_iff]
    rintro (⟨before, hsuffix⟩ | hin)
    · have hlast := congrArg List.getLast? hsuffix
      simp at hlast
    · rw [List.append_assoc] at hin
      exact ih hin

theorem noCode_nal (n : Nal) : NoCode 0 n.bytes := by
  rw [NoCode]
  exact n.no_code

theorem noCode_nil : NoCode 0 [] := by
  rw [NoCode]
  decide

theorem Nal.zerosAfter (n : Nal) (zeros : Nat) : zerosAfter zeros n.bytes = 0 :=
  zerosAfter_of_last n.ne_nil n.last_ne zeros

/-- The leading zero bytes of a start code that are not given to the unit before it. -/
def codeZeros (zeros : Nat) : Nat := min zeros 1

/-- From the beginning of a unit on: the start code. -/
theorem naluFindFrom_unit (i zeros : Nat) (n : Nal) (rest : List UInt8) :
    naluFindFrom i 0 (List.replicate zeros 0 ++ 0 :: 0 :: 1 :: (n.bytes ++ rest)) =
      some (i + zeros + 3, codeZeros zeros + 3) := by
  have hcode : List.replicate zeros 0 ++ 0 :: 0 :: 1 :: (n.bytes ++ rest) =
      List.replicate (zeros + 2) 0 ++ 1 :: (n.bytes ++ rest) := by
    rw [List.replicate_succ', List.replicate_succ']
    simp
  have hzeros : NoCode 0 (List.replicate (zeros + 2) 0) := noCode_nil.append_zeros (zeros + 2)
  obtain ⟨b, bs, hbs⟩ := List.exists_cons_of_ne_nil n.ne_nil
  rw [hcode, naluFindFrom_append hzeros, zerosAfter_replicate, hbs, List.cons_append,
    naluFindFrom_code (by omega), List.length_replicate, codeZeros]
  congr 2
  omega

/-! ## The units that the loop comes to -/

/-- A NAL unit in memory: so many zero bytes behind it are given to it, and `rest` is what follows. -/
structure Slot where
  nal : Nal
  pad : Nat
  rest : List UInt8

def Slot.mem (sl : Slot) : List UInt8 := sl.nal.bytes ++ (List.replicate sl.pad 0 ++ sl.rest)

def Slot.length (sl : Slot) : Nat := sl.nal.bytes.length + sl.pad

/-- A start code and what follows. -/
def coded (zeros : Nat) (tail : List UInt8) : List UInt8 := List.replicate zeros 0 ++ 0 :: 0 :: 1 :: tail

/-- The slots of a buffer, with what the memory has behind it. -/
def slots : List NalUnit → Nat → List UInt8 → List Slot
  | [], _, _ => []
  | [u], trailing, behind => [⟨u.nal, trailing, behind⟩]
  | u :: v :: us, trailing, behind =>
    ⟨u.nal, v.zeros - codeZeros v.zeros,
      coded (codeZeros v.zeros) (v.nal.bytes ++ ((AnnexB.mk us trailing).bytes ++ behind))⟩ ::
        slots (v :: us) trailing behind

def AnnexB.slots (b : AnnexB) (behind : List UInt8) : List Slot := Rtmp.slots b.units b.trailing behind

theorem map_nal_slots (us : List NalUnit) (trailing : Nat) (behind : List UInt8) :
    (slots us trailing behind).map Slot.nal = us.map NalUnit.nal := by
  induction us with
  | nil => rfl
  | cons u us ih =>
    cases us with
    | nil => rfl
    | cons v us =>
      rw [slots, List.map_cons, ih]
      rfl

theorem length_coded (zeros : Nat) (tail : List UInt8) :
    (coded zeros tail).length = zeros + 3 + tail.length := by
  rw [coded, List.length_append, List.length_replicate]
  simp only [List.length_cons]
  omega

theorem drop_coded (zeros : Nat) (tail : List UInt8) : (coded zeros tail).drop (zeros + 3) = tail := by
  rw [coded, ← List.drop_drop, List.drop_left' List.length_replicate]
  rfl

theorem naluFind_coded (zeros : Nat) (n : Nal) (tail behind : List UInt8) :
    naluFind (coded zeros (n.bytes ++ tail) ++ behind) (coded zeros (n.bytes ++ tail)).length =
      some (zeros + 3, codeZeros zeros + 3) := by
  rw [naluFind, List.take_left, coded, naluFindFrom_unit, Nat.zero_add]

theorem codeZeros_codeZeros (zeros : Nat) : codeZeros (codeZeros zeros) = codeZeros zeros := by
  rw [codeZeros, codeZeros]
  omega

theorem drop_coded_zeros (zeros : Nat) (tail : List UInt8) :
    (coded zeros tail).drop (zeros - codeZeros zeros) = coded (codeZeros zeros) tail := by
  have hzeros : codeZeros zeros ≤ zeros := Nat.min_le_left _ _
  rw [coded, List.drop_append_of_le_length (by rw [List.length_replicate]; omega),
    List.drop_replicate, Nat.sub_sub_self hzeros, coded]

/-- The zero bytes of a code that belong to it, and those before them. -/
theorem coded_split (zeros : Nat) (tail : List UInt8) :
    coded zeros tail = List.replicate (zeros - codeZeros zeros) 0 ++ coded (codeZeros zeros) tail := by
  have hzeros : codeZeros zeros ≤ zeros := Nat.min_le_left _ _
  rw [coded, coded, ← List.append_assoc, List.replicate_append_replicate, Nat.sub_add_cancel hzeros]

/-- In a unit the start code is found again. -/
theorem naluFind_slot (zeros : Nat) (sl : Slot) :
    naluFind (coded zeros sl.mem) (zeros + 3 + sl.length) = some (zeros + 3, codeZeros zeros + 3) := by
  have hmem : coded zeros sl.mem =
      coded zeros (sl.nal.bytes ++ List.replicate sl.pad 0) ++ sl.rest := by simp [coded, Slot.mem]
  have hlen : zeros + 3 + sl.length =
      (coded zeros (sl.nal.bytes ++ List.replicate sl.pad 0)).length := by
    rw [length_coded, List.length_append, List.length_replicate, Slot.length]
  rw [hmem, hlen, naluFind_coded]

/-- Behind the last unit nothing is found. -/
theorem naluFindAccessUnit_last (zeros : Nat) (n : Nal) (trailing : Nat) (behind : List UInt8) :
    naluFindAccessUnit (coded zeros (n.bytes ++ List.replicate trailing 0) ++ behind)
        (coded zeros (n.bytes ++ List.replicate trailing 0)).length =
      some ⟨zeros - codeZeros zeros, zeros + 3, zeros + 3 + (n.bytes.length + trailing)⟩ := by
  have hnext : naluFind ((coded zeros (n.bytes ++ List.replicate trailing 0) ++ behind).drop (zeros + 3))
      ((coded zeros (n.bytes ++ List.replicate trailing 0)).length - (zeros + 3)) = none := by
    rw [List.drop_append_of_le_length (by rw [length_coded]; omega), drop_coded, length_coded,
      Nat.add_sub_cancel_left, naluFind, List.take_left]
    exact naluFindFrom_none ((noCode_nal n).append_zeros trailing) 0
  rw [naluFindAccessUnit, naluFind_coded]
  simp only [hnext]
  rw [length_coded, List.length_append, List.length_replicate, Nat.add_sub_add_right]

/-- Before another unit, all zero bytes but one are given to the unit. -/
theorem naluFindAccessUnit_next (zeros : Nat) (n : Nal) (zeros' : Nat) (n' : Nal)
    (tail behind : List UInt8) :
    naluFindAccessUnit (coded zeros (n.bytes ++ coded zeros' (n'.bytes ++ tail)) ++ behind)
        (coded zeros (n.bytes ++ coded zeros' (n'.bytes ++ tail))).length =
      some ⟨zeros - codeZeros zeros, zeros + 3,
        zeros + 3 + (n.bytes.length + (zeros' - codeZeros zeros'))⟩ := by
  have hnext : naluFind
      ((coded zeros (n.bytes ++ coded zeros' (n'.bytes ++ tail)) ++ behind).drop (zeros + 3))
      ((coded zeros (n.bytes ++ coded zeros' (n'.bytes ++ tail))).length - (zeros + 3)) =
        some (n.bytes.length + zeros' + 3, codeZeros zeros' + 3) := by
    rw [List.drop_append_of_le_length (by rw [length_coded]; omega), drop_coded, length_coded,
      Nat.add_sub_cancel_left, naluFind, List.take_left]
    obtain ⟨b, bs, hbs⟩ : ∃ b bs, coded zeros' (n'.bytes ++ tail) = b :: bs :=
      List.exists_cons_of_ne_nil (by simp [coded])
    rw [hbs, naluFindFrom_append (noCode_nal n), Nal.zerosAfter, ← hbs, coded, naluFindFrom_unit,
      Nat.zero_add]
  rw [naluFindAccessUnit, naluFind_coded]
  simp only [hnext, codeZeros]
  congr 2
  · omega
  · omega

/-- The loop takes the slots one after the other. `step` may look at a unit only from its start code
on. -/
theorem unitLoop_coded {σ : Type} {step : σ → List UInt8 → AccessUnit → Option σ}
    {slotStep : σ → Slot → Option σ}
    (hstep : ∀ s zeros (sl : Slot), step s (coded zeros sl.mem)
      ⟨zeros - codeZeros zeros, zeros + 3, zeros + 3 + sl.length⟩ = slotStep s sl)
    (us : List NalUnit) (trailing : Nat) (behind : List UInt8) (u : NalUnit) (zeros : Nat) {fuel : Nat}
    (hfuel : us.length < fuel) (s : σ) :
    unitLoop step fuel s (coded zeros (u.nal.bytes ++ (AnnexB.mk us trailing).bytes) ++ behind)
        (coded zeros (u.nal.bytes ++ (AnnexB.mk us trailing).bytes)).length =
      (slots (u :: us) trailing behind).foldlM slotStep s := by
  induction us generalizing u zeros fuel s with
  | nil =>
    have hbytes : (AnnexB.mk [] trailing).bytes = List.replicate trailing 0 := rfl
    obtain ⟨fuel, rfl⟩ := Nat.exists_eq_succ_of_ne_zero (Nat.ne_of_gt hfuel)
    rw [hbytes, unitLoop, naluFindAccessUnit_last]
    have hmem : coded zeros (u.nal.bytes ++ List.replicate trailing 0) ++ behind =
        coded zeros (Slot.mem ⟨u.nal, trailing, behind⟩) := by
      simp [coded, Slot.mem]
    have hleft : (coded zeros (u.nal.bytes ++ List.replicate trailing 0)).length -
        (zeros + 3 + (u.nal.bytes.length + trailing)) = 0 := by
      rw [length_coded, List.length_append, List.length_replicate, Nat.sub_self]
    have hdone : ∀ (s : σ) (start : List UInt8), unitLoop step fuel s start 0 = some s := by
      intro s start
      cases fuel with
      | zero => rfl
      | succ fuel => rfl
    have hturn := hstep s zeros ⟨u.nal, trailing, behind⟩
    rw [Slot.length] at hturn
    simp only [hmem, hleft, hdone, hturn, slots, List.foldlM_cons, List.foldlM_nil]
    rfl
  | cons v us ih =>
    obtain ⟨fuel, rfl⟩ := Nat.exists_eq_succ_of_ne_zero (Nat.ne_zero_of_lt hfuel)
    have hbytes : (AnnexB.mk (v :: us) trailing).bytes =
        coded v.zeros (v.nal.bytes ++ (AnnexB.mk us trailing).bytes) := AnnexB.bytes_cons v us trailing
    generalize htail : (AnnexB.mk us trailing).bytes = tail at hbytes ih
    have hzeros : codeZeros v.zeros ≤ v.zeros := Nat.min_le_left _ _
    have hsplit := coded_split v.zeros (v.nal.bytes ++ tail)
    rw [hbytes, unitLoop, naluFindAccessUnit_next]
    have hslot : coded zeros (u.nal.bytes ++ coded v.zeros (v.nal.bytes ++ tail)) ++ behind =
        coded zeros (Slot.mem ⟨u.nal, v.zeros - codeZeros v.zeros,
          coded (codeZeros v.zeros) (v.nal.bytes ++ (tail ++ behind))⟩) := by
      rw [hsplit]
      simp [coded, Slot.mem]
    have hdrop : (coded zeros (u.nal.bytes ++ coded v.zeros (v.nal.bytes ++ tail)) ++ behind).drop
        (zeros + 3 + (u.nal.bytes.length + (v.zeros - codeZeros v.zeros))) =
          coded (codeZeros v.zeros) (v.nal.bytes ++ tail) ++ behind := by
      rw [← List.drop_drop, List.drop_append_of_le_length (by rw [length_coded]; omega), drop_coded,
        ← List.drop_drop, List.append_assoc, List.drop_left, hsplit, List.append_assoc,
        List.drop_left' List.length_replicate]
    have hleft : (coded zeros (u.nal.bytes ++ coded v.zeros (v.nal.bytes ++ tail))).length -
        (zeros + 3 + (u.nal.bytes.length + (v.zeros - codeZeros v.zeros))) =
          (coded (codeZeros v.zeros) (v.nal.bytes ++ tail)).length := by
      rw [length_coded, List.length_append, length_coded, length_coded]
      omega
    have hturn := hstep s zeros ⟨u.nal, v.zeros - codeZeros v.zeros,
      coded (codeZeros v.zeros) (v.nal.bytes ++ (tail ++ behind))⟩
    rw [Slot.length, ← hslot] at hturn
    simp only [hdrop, hleft, hturn, slots, List.foldlM_cons, htail]
    cases slotStep s ⟨u.nal, v.zeros - codeZeros v.zeros,
      coded (codeZeros v.zeros) (v.nal.bytes ++ (tail ++ behind))⟩ with
    | none => rfl
    | some s' => exact ih v (codeZeros v.zeros) (Nat.lt_of_succ_lt_succ hfuel) s'

/-- The loop over a whole buffer. -/
theorem unitLoop_eq {σ : Type} {step : σ → List UInt8 → AccessUnit → Option σ}
    {slotStep : σ → Slot → Option σ}
    (hstep : ∀ s zeros (sl : Slot), step s (coded zeros sl.mem)
      ⟨zeros - codeZeros zeros, zeros + 3, zeros + 3 + sl.length⟩ = slotStep s sl)
    (b : AnnexB) (behind : List UInt8) (s : σ) :
    unitLoop step b.bytes.length s (b.bytes ++ behind) b.bytes.length =
      (AnnexB.slots b behind).foldlM slotStep s := by
  obtain ⟨us, trailing⟩ := b
  cases us with
  | nil =>
    have hnone : naluFindAccessUnit (List.replicate trailing 0 ++ behind) trailing = none := by
      have htake : (List.replicate trailing (0 : UInt8) ++ behind).take trailing =
          List.replicate trailing 0 := List.take_left' List.length_replicate
      have hcode : NoCode 0 (List.replicate trailing 0) := noCode_nil.append_zeros trailing
      rw [naluFindAccessUnit, naluFind, htake, naluFindFrom_none hcode]
    show unitLoop step (List.replicate trailing 0).length s (List.replicate trailing 0 ++ behind)
      (List.replicate trailing 0).length = some s
    rw [List.length_replicate]
    cases trailing with
    | zero => rfl
    | succ trailing => rw [unitLoop, hnone]
  | cons u us =>
    have hbytes : (AnnexB.mk (u :: us) trailing).bytes =
        coded u.zeros (u.nal.bytes ++ (AnnexB.mk us trailing).bytes) := AnnexB.bytes_cons u us trailing
    have hfuel : us.length < (AnnexB.mk (u :: us) trailing).bytes.length :=
      AnnexB.length_units_le (u :: us) trailing
    rw [hbytes] at hfuel ⊢
    exact unitLoop_coded hstep us trailing behind u u.zeros hfuel s

end ProgrammingPath.Rtmp
