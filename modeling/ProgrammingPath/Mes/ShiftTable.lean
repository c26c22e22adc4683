import ProgrammingPath.Mes.Bounds

/-!
# The table of the shifts

The control request 0x0D brings the shifts: a serial number, the hour and the minute of the
beginning and those of the end. `CSCPAction::OnSetClassInfo` makes the table of the times at which
the shifts change.

`OnSetClassInfo` takes the two bytes of a time for one word: the hour is its low byte, the minute
its high one. But a time is an array of two bytes, and the loop over the shifts uses its own index
for the place in that array. So no minute ever gets into the table, the second shift ends at the
minute of its end, and the third shift is read from behind the array.
-/

namespace ProgrammingPath.Mes

open ProgrammingPath.Qt ProgrammingPath.Lib
open Watch (ClassInfo ControlRequest)

/-- `ClassTime`. -/
structure ClassTime where
  wHour : Nat
  wMinute : Nat
  deriving DecidableEq, Repr

/-! ## The source -/

/-- `time[i]` of an array of two bytes. There is nothing behind the second one. -/
def timeAt (time : UInt8 × UInt8) : Nat → Option Nat
  | 0 => some time.1.toNat
  | 1 => some time.2.toNat
  | _ => none

/-- What the loop appends for the shift at the place `i`. -/
def shiftTimes (i : Nat) (info : ClassInfo) : Option (List ClassTime) := do
  let beginHour := (← timeAt info.beginTime 0) &&& 0x00FF
  let beginMinute := ((← timeAt info.beginTime i) &&& 0xFF00) >>> 8
  let endHour := (← timeAt info.endTime i) &&& 0x00FF
  let endMinute := ((← timeAt info.endTime i) &&& 0xFF00) >>> 8
  return [⟨beginHour, beginMinute⟩, ⟨endHour, endMinute⟩]

/-- The loop over the shifts, from the place `i` on. -/
def classTimes (i : Nat) : List ClassInfo → Option (List ClassTime)
  | [] => some []
  | info :: rest => do
    let times ← shiftTimes i info
    return times ++ (← classTimes (i + 1) rest)

/-- `CSCPAction::OnSetClassInfo`: the new `ClassTimeList`, or nothing when a byte outside the two
arrays was read. The list is cleared before. -/
def onSetClassInfo (_classTimeList : List ClassTime) (info : List ClassInfo) :
    Option (List ClassTime) := do
  let cleared : List ClassTime := []
  return cleared ++ (← classTimes 0 info)

/-- `protocol_control_dev_parse` and `slot_protocol_control_dev`, for what they do to the table: only
the request 0x0D touches it. -/
def slotControlDev (classTimeList : List ClassTime) (pack : MESPack) : Option (List ClassTime) :=
  if pack.cmdSerial ≠ 0xD7 then some classTimeList
  else
    let request := (Watched.erase Watch.decodeControl pack).1
    if request.dataType = 0x0D then onSetClassInfo classTimeList request.classList
    else some classTimeList

/-! ## What the table is for -/

/-- The times at which a shift begins and ends. -/
def Watch.ClassInfo.times (info : ClassInfo) : List ClassTime :=
  [⟨info.beginTime.1.toNat, info.beginTime.2.toNat⟩, ⟨info.endTime.1.toNat, info.endTime.2.toNat⟩]

/-- A shift as it stands in the request. -/
def Watch.ClassInfo.bytes (info : ClassInfo) : QByteArray :=
  [info.serialNumber, info.beginTime.1, info.beginTime.2, info.endTime.1, info.endTime.2]

/-- The body of a request 0x0D. -/
def classBody (cmdCode : QByteArray) (shifts : List ClassInfo) : QByteArray :=
  [0x0D] ++ (cmdCode ++ ([UInt8.ofNat shifts.length] ++ shifts.flatMap ClassInfo.bytes))

/-! ## The decoder -/

theorem takes_readClass (info : ClassInfo) :
    Takes (Watched.erase Watch.readClass) info.bytes info := by
  show Takes (do
      let serialNumber ← Reader.quint8
      let begin0 ← Reader.quint8
      let begin1 ← Reader.quint8
      let end0 ← Reader.quint8
      let end1 ← Reader.quint8
      return ({ serialNumber, beginTime := (begin0, begin1), endTime := (end0, end1) } : ClassInfo))
    [[info.serialNumber], [info.beginTime.1], [info.beginTime.2], [info.endTime.1],
      [info.endTime.2]].flatten info
  refine (Takes.quint8 info.serialNumber).cons ?_
  refine (Takes.quint8 info.beginTime.1).cons ?_
  refine (Takes.quint8 info.beginTime.2).cons ?_
  refine (Takes.quint8 info.endTime.1).cons ?_
  refine (Takes.quint8 info.endTime.2).cons ?_
  exact Takes.pure _

theorem erase_controlBody_class (cmdCode : QByteArray) :
    Watched.erase (Watch.controlBody 0x0D cmdCode) = (do
      let count ← Reader.quint8
      let classList ← Reader.times (Watched.erase Watch.readClass) count.toNat
      return { dataType := 0x0D, cmdCode, classList } : Reader ControlRequest) := by
  have hbody : Watch.controlBody 0x0D cmdCode = (do
      let count ← Watch.quint8
      let classList ← Watched.times Watch.readClass count.toNat
      return { dataType := 0x0D, cmdCode, classList } : Watch ControlRequest) := rfl
  rw [hbody]
  simp only [Watched.erase_bind, Watch.erase_times]
  rfl

/-- The decoder returns the shifts that the body was made of. -/
theorem decodeControl_class {pack : MESPack} {cmdCode : QByteArray} {shifts : List ClassInfo}
    {rest : QByteArray} (hcode : cmdCode.length = 20) (hcount : shifts.length < 256)
    (hat : pack.At (classBody cmdCode shifts ++ rest)) :
    (Watched.erase Watch.decodeControl pack).1 =
      { dataType := 0x0D, cmdCode, classList := shifts } := by
  have hlist : Takes (Reader.times (Watched.erase Watch.readClass)
      (UInt8.ofNat shifts.length).toNat) (shifts.flatMap ClassInfo.bytes) shifts := by
    have htimes := Takes.times fun info (_ : info ∈ shifts) => takes_readClass info
    rwa [List.map_id', ← UInt8.toNat_ofNat_of_lt' hcount] at htimes
  rw [classBody, List.append_assoc, List.append_assoc, List.append_assoc] at hat
  have hafter := hat.skip.skip.skip
  unfold Watch.decodeControl
  rw [Watched.erase_bind]
  show (((Reader.quint8 >>= _) : Reader ControlRequest) pack).1 = _
  rw [(Takes.quint8 0x0D).run_bind hat, if_neg (by decide), Watched.erase_bind]
  show (((Reader.qbytes (20 : Nat) >>= _) : Reader ControlRequest) _).1 = _
  rw [(Takes.qbytes hcode).run_bind hat.skip]
  rw [erase_controlBody_class, (Takes.quint8 _).run_bind hat.skip.skip, hlist.run_bind hafter]
  rfl

/-! ## One shift -/

@[simp] theorem timeAt_zero (time : UInt8 × UInt8) : timeAt time 0 = some time.1.toNat := rfl

@[simp] theorem timeAt_one (time : UInt8 × UInt8) : timeAt time 1 = some time.2.toNat := rfl

/-- A byte has no high byte. -/
theorem high_byte (b : UInt8) : (b.toNat &&& 0xFF00) >>> 8 = 0 := by
  have hlt := b.toNat_lt
  rw [Nat.shiftRight_and_distrib, Nat.shiftRight_eq_div_pow, Nat.div_eq_of_lt (by omega)]
  exact Nat.zero_and _

theorem low_byte (b : UInt8) : b.toNat &&& 0x00FF = b.toNat := by
  have hlt := b.toNat_lt
  rw [show (0x00FF : Nat) = 2 ^ 8 - 1 from rfl, Nat.and_two_pow_sub_one_eq_mod,
    Nat.mod_eq_of_lt (by omega)]

theorem shiftTimes_zero (info : ClassInfo) :
    shiftTimes 0 info = some [⟨info.beginTime.1.toNat, 0⟩, ⟨info.endTime.1.toNat, 0⟩] := by
  simp [shiftTimes, high_byte, low_byte]

/-- The second shift ends at the minute of its end. -/
theorem shiftTimes_one (info : ClassInfo) :
    shiftTimes 1 info = some [⟨info.beginTime.1.toNat, 0⟩, ⟨info.endTime.2.toNat, 0⟩] := by
  simp [shiftTimes, high_byte, low_byte]

/-- From the third shift on, the arrays are at their end. -/
theorem shiftTimes_behind {i : Nat} (h : 2 ≤ i) (info : ClassInfo) : shiftTimes i info = none := by
  obtain ⟨n, rfl⟩ := Nat.exists_eq_add_of_le' h
  rfl

/-! ## The table -/

/-- At most two shifts, all of them on the hour, and the second one ends at midnight. -/
structure OnTheHour (shifts : List ClassInfo) : Prop where
  two : shifts.length ≤ 2
  minutes : ∀ info ∈ shifts, info.beginTime.2 = 0 ∧ info.endTime.2 = 0
  midnight : ∀ info ∈ shifts[1]?, info.endTime.1 = 0

/-- The first shift is entered as it is when it is on the hour. -/
theorem shiftTimes_zero_eq_iff {info : ClassInfo} :
    shiftTimes 0 info = some info.times ↔ info.beginTime.2 = 0 ∧ info.endTime.2 = 0 := by
  rw [shiftTimes_zero, ClassInfo.times]
  simp [← UInt8.toNat_inj, eq_comm]

/-- The second one, when it ends at midnight, too. -/
theorem shiftTimes_one_eq_iff {info : ClassInfo} :
    shiftTimes 1 info = some info.times ↔
      (info.beginTime.2 = 0 ∧ info.endTime.2 = 0) ∧ info.endTime.1 = 0 := by
  rw [shiftTimes_one, ClassInfo.times]
  simp only [Option.some.injEq, List.cons.injEq, ClassTime.mk.injEq, true_and, and_true,
    ← UInt8.toNat_inj, UInt8.toNat_zero]
  omega

theorem classTimes_nil_eq (i : Nat) :
    classTimes i [] = some (([] : List ClassInfo).flatMap ClassInfo.times) := rfl

/-- Every shift that is entered gives two times. -/
theorem length_of_shiftTimes {i : Nat} {info : ClassInfo} {times : List ClassTime}
    (h : shiftTimes i info = some times) : times.length = 2 := by
  match i with
  | 0 =>
    rw [shiftTimes_zero] at h
    cases h
    rfl
  | 1 =>
    rw [shiftTimes_one] at h
    cases h
    rfl
  | i + 2 =>
    rw [shiftTimes_behind (Nat.le_add_left 2 i)] at h
    cases h

/-- So the table is right when it is right shift by shift. -/
theorem classTimes_cons_eq_iff {i : Nat} {info : ClassInfo} {rest : List ClassInfo} :
    classTimes i (info :: rest) = some ((info :: rest).flatMap ClassInfo.times) ↔
      shiftTimes i info = some info.times ∧
        classTimes (i + 1) rest = some (rest.flatMap ClassInfo.times) := by
  rw [classTimes, List.flatMap_cons]
  constructor
  · intro h
    simp only [Option.bind_eq_bind, Option.bind_eq_some_iff, Option.pure_def,
      Option.some.injEq] at h
    obtain ⟨times, hfirst, tail, hrest, happend⟩ := h
    have hlength : times.length = info.times.length := length_of_shiftTimes hfirst
    obtain ⟨rfl, rfl⟩ := List.append_inj happend hlength
    exact ⟨hfirst, hrest⟩
  · rintro ⟨hfirst, hrest⟩
    rw [hfirst, hrest]
    rfl

theorem classTimes_behind {i : Nat} (h : 2 ≤ i) {info : ClassInfo} {rest : List ClassInfo} :
    classTimes i (info :: rest) = none := by
  rw [classTimes, shiftTimes_behind h]
  rfl

/-- For every list of shifts, whatever the table was. -/
theorem onSetClassInfo_eq_iff (classTimeList : List ClassTime) (shifts : List ClassInfo) :
    onSetClassInfo classTimeList shifts = some (shifts.flatMap ClassInfo.times) ↔
      OnTheHour shifts := by
  have hset : onSetClassInfo classTimeList shifts = classTimes 0 shifts := by
    simp [onSetClassInfo]
  rw [hset]
  match shifts with
  | [] => exact iff_of_true rfl ⟨by simp, by simp, by simp⟩
  | [first] =>
    rw [classTimes_cons_eq_iff, shiftTimes_zero_eq_iff, and_iff_left (classTimes_nil_eq 1)]
    exact ⟨fun h => ⟨by simp, by simpa using h, by simp⟩, fun h => h.minutes first (by simp)⟩
  | [first, second] =>
    rw [classTimes_cons_eq_iff, classTimes_cons_eq_iff, shiftTimes_zero_eq_iff,
      shiftTimes_one_eq_iff, and_iff_left (classTimes_nil_eq 2)]
    constructor
    · rintro ⟨hfirst, hsecond, hmidnight⟩
      exact ⟨by simp, by simpa using ⟨hfirst, hsecond⟩, by simpa using hmidnight⟩
    · intro h
      exact ⟨h.minutes first (by simp), h.minutes second (by simp), h.midnight second (by simp)⟩
  | first :: second :: third :: rest =>
    rw [classTimes_cons_eq_iff, classTimes_cons_eq_iff, classTimes_behind (Nat.le_refl 2)]
    constructor
    · rintro ⟨-, -, h⟩
      cases h
    · intro h
      exact absurd h.two (by simp)

/-- The request as it arrives: the table is what the shifts say, and no byte outside their two
arrays is read, exactly for the shifts on the hour. -/
theorem slotControlDev_eq_iff (classTimeList : List ClassTime) {pack : MESPack}
    {cmdCode rest : QByteArray} {shifts : List ClassInfo} (hcmd : pack.cmdSerial = 0xD7)
    (hcode : cmdCode.length = 20) (hcount : shifts.length < 256)
    (hat : pack.At (classBody cmdCode shifts ++ rest)) :
    slotControlDev classTimeList pack = some (shifts.flatMap ClassInfo.times) ↔
      OnTheHour shifts := by
  rw [slotControlDev, if_neg (not_not_intro hcmd), decodeControl_class hcode hcount hat]
  exact onSetClassInfo_eq_iff classTimeList shifts

/-- A packet with the request 0x0D. -/
def classPack (shifts : List ClassInfo) : MESPack :=
  { cmdSerial := 0xD7, body := classBody (List.replicate 20 0x31) shifts }

theorem at_classPack (shifts : List ClassInfo) :
    (classPack shifts).At (classBody (List.replicate 20 0x31) shifts ++ []) := by
  rw [List.append_nil]
  exact MESPack.at_zero rfl

/-- A day shift from eight on and a night shift until midnight. -/
theorem slotControlDev_two_shifts :
    slotControlDev [⟨6, 30⟩] (classPack [⟨1, (8, 0), (16, 0)⟩, ⟨2, (16, 0), (0, 0)⟩]) =
        some [⟨8, 0⟩, ⟨16, 0⟩, ⟨16, 0⟩, ⟨0, 0⟩] :=
  (slotControlDev_eq_iff [⟨6, 30⟩] rfl List.length_replicate (by decide)
    (at_classPack [⟨1, (8, 0), (16, 0)⟩, ⟨2, (16, 0), (0, 0)⟩])).mpr
      ⟨by decide, by decide, by decide⟩

/-- Half past seven is entered as seven. -/
theorem not_slotControlDev_half_past :
    slotControlDev [] (classPack [⟨1, (7, 30), (15, 30)⟩]) ≠ some [⟨7, 30⟩, ⟨15, 30⟩] := by
  decide +kernel

end ProgrammingPath.Mes
