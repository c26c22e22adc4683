import ProgrammingPath.Lib.Watched
import ProgrammingPath.Mes.OrderLayout

/-!
# What the decoders touch

The decoders once more, watched: every byte they read of an array and every byte they write to a
buffer of a fixed size is an `Access`. Without the accesses they are the decoders of `Mes.Request`
(`erase_decodeOrder` and its siblings).

`mid`, `QByteRef` and `QDataStream::readRawData` look at the size of the array. `readByte` does
not: it copies as many bytes as were asked for out of the array that `mid` returned. And the loop
over the versions in the answer to the registration does not know that there is room for ten.
-/

namespace ProgrammingPath.Mes

open ProgrammingPath.Qt ProgrammingPath.Lib

/-! ## Accesses -/

/-- `count` bytes from `start` on, in an array of `size` bytes. -/
inductive Access where
  | read (size start count : Nat)
  | write (size start count : Nat)
  deriving DecidableEq, Repr

/-- All bytes lie in the array. -/
def Access.Inside : Access → Prop
  | read size start count => count = 0 ∨ start + count ≤ size
  | write size start count => count = 0 ∨ start + count ≤ size

instance : DecidablePred Access.Inside := fun a => by
  cases a <;> exact inferInstanceAs (Decidable (_ ∨ _))

/-- A reader of a packet that is watched. -/
abbrev Watch := Watched Access MESPack

namespace Watch

/-- `body.mid(atPoint, len)` copies what there is. -/
def midAccess (p : MESPack) (len : Nat) : List Access :=
  [.read p.body.length p.atPoint.toNat (QByteArray.mid p.body p.atPoint len).length]

/-- `array[i]` of a non-constant array looks at the size before it looks at the byte. -/
def byteRefAccess (array : QByteArray) (i : Nat) : List Access :=
  if i < array.length then [.read array.length i 1] else []

def quint8 : Watch UInt8 :=
  .watch (fun p => byteRefAccess p.body p.atPoint.toNat) Reader.quint8

/-- `readByte`: `memcpy(str, array.data(), len)` out of `body.mid(atPoint, len)`, to a variable of
`len` bytes. -/
def byteAccess (len : Nat) (p : MESPack) : List Access :=
  midAccess p len ++
    [.read (QByteArray.mid p.body p.atPoint len).length 0 len, .write len 0 len]

def quint16 : Watch UInt16 := .watch (byteAccess 2) Reader.quint16
def quint32 : Watch UInt32 := .watch (byteAccess 4) Reader.quint32
def qint32 : Watch Int32 := do return (← quint32).toInt32
def qstring (len : Nat) : Watch QString := .watch (fun p => midAccess p len) (Reader.qstring len)
def qbytes (len : Nat) : Watch QByteArray := .watch (fun p => midAccess p len) (Reader.qbytes len)
def qDateTime : Watch QDateTime :=
  .watch (fun p => midAccess p 6 ++
    (List.range 6).flatMap (byteRefAccess (QByteArray.mid p.body p.atPoint 6))) Reader.qDateTime

/-- Looking at the position touches nothing. -/
def look : Watch MESPack := .watch (fun _ => []) get

/-! ## The decoders -/

def readOrder : Watch OrderRow := do
  let moDispatchNo ← qstring 20
  let moDispatchPrior ← qstring 30
  let moProcCode ← qstring 20
  let moProcName ← qstring 50
  let moStaCode ← qstring 10
  let moStaName ← qstring 20
  let moStandCycle ← qint32
  let moTotalNum ← qint32
  let moMultiNum ← quint8
  let moBadTypeNo ← quint8
  let moBadReasonNum ← quint8
  return {
    moDispatchNo, moDispatchPrior, moProcCode, moProcName, moStaCode, moStaName, moStandCycle,
    moTotalNum, moMultiNum := byteToInt moMultiNum, moBadTypeNo := byteToInt moBadTypeNo,
    moBadReasonNum := byteToInt moBadReasonNum }

def readBoy (order : OrderRow) : Watch OrderBoy := do
  let pcsMo ← qstring 20
  let pcsItemNo ← qstring 20
  let pcsItemName ← qstring 50
  let pcsMouldNo ← qstring 20
  let pcsDispatchQty ← qint32
  let pcsSocketNum1 ← quint8
  let pcsSocketNum2 ← quint8
  let pcsFitMachineMin ← qint32
  let pcsFitMachineMax ← qint32
  let pcsBadQty ← qint32
  let pcsBadData ← qint32.times order.moBadReasonNum.toNatClampNeg
  let pcsAdjNum ← qint32
  return {
    pcsMo, pcsItemNo, pcsItemName, pcsMouldNo, pcsDispatchQty,
    pcsSocketNum1 := byteToInt pcsSocketNum1, pcsSocketNum2 := byteToInt pcsSocketNum2,
    pcsFitMachineMin, pcsFitMachineMax, pcsBadQty, pcsBadData, pcsAdjNum,
    totalOkNum := order.moTotalNum * byteToInt pcsSocketNum2 + pcsAdjNum - pcsBadQty }

def readMaterial (order : OrderRow) : Watch Material := do
  let materialNo ← qstring 50
  let materialName ← qstring 100
  return { dispatchNo := order.moDispatchNo, materialNo, materialName }

/-- `MESOrderRequest::decode`. -/
def decodeOrder (db : DB) : Watch MESOrderRequest := do
  let dataType ← quint16
  let order ← readOrder
  let boys ← (readBoy order).times order.moMultiNum.toNatClampNeg
  let orderBoyList := boys.flatMap (fun boy => db.boys order.moDispatchNo ++ [boy])
  let order' : Order := { toOrderRow := order, orderBoyList := orderBoyList }
  if (← look).isReadEnd then
    return { dataType, order := order' }
  else
    let matCount ← quint8
    let materialList ← (readMaterial order).times matCount.toNat
    return { dataType, order := order', materialList }

/-- A shift of `MESControlRequest`. -/
structure ClassInfo where
  serialNumber : UInt8
  beginTime : UInt8 × UInt8
  endTime : UInt8 × UInt8
  deriving DecidableEq, Repr

/-- All fields of `MESControlRequest`. -/
structure ControlRequest extends MESControlRequest where
  rtcDateTime : QDateTime := none
  devPassword : QString := []
  sql : QString := []
  initFileName : QString := []
  classList : List ClassInfo := []

def readIndex : Watch OrderIndex := do
  let serialNumber ← quint8
  let dispatchNo ← qstring 20
  let dispatchPrior ← qstring 30
  return { serialNumber, dispatchNo, dispatchPrior }

def readClass : Watch ClassInfo := do
  let serialNumber ← quint8
  let begin0 ← quint8
  let begin1 ← quint8
  let end0 ← quint8
  let end1 ← quint8
  return { serialNumber, beginTime := (begin0, begin1), endTime := (end0, end1) }

/-- What follows the number of a control command. -/
def controlBody (dataType : UInt8) (cmdCode : QByteArray) : Watch ControlRequest := do
  match dataType.toNat with
  | 0x02 =>
    let rtcDateTime ← qDateTime
    return { dataType, cmdCode, rtcDateTime }
  | 0x04 =>
    let fileName ← qstring 30
    let fileVer ← qbytes 20
    return { dataType, cmdCode, fileName, fileVer }
  | 0x05 =>
    let fileName ← qstring 30
    return { dataType, cmdCode, fileName }
  | 0x06 =>
    let devPassword ← qstring 10
    return { dataType, cmdCode, devPassword }
  | 0x07 =>
    let adjustNo ← qbytes 20
    let count ← quint8
    let orderIndexList ← readIndex.times count.toNat
    return { dataType, cmdCode, adjustNo, orderIndexList }
  | 0x0B =>
    let len ← quint16
    let sql ← qstring len.toNat
    return { dataType, cmdCode, sql }
  | 0x0C =>
    let initFileName ← qstring 30
    return { dataType, cmdCode, initFileName }
  | 0x0D =>
    let count ← quint8
    let classList ← readClass.times count.toNat
    return { dataType, cmdCode, classList }
  | 0x0E =>
    let dispatchNo ← qstring 20
    return { dataType, cmdCode, dispatchNo }
  | _ => return { dataType, cmdCode }

/-- `MESControlRequest::decode`. -/
def decodeControl : Watch ControlRequest := do
  let dataType ← quint8
  if dataType = 0x01 then
    return { dataType }
  else
    let cmdCode ← qbytes 20
    controlBody dataType cmdCode

def readSyncIndex : Watch OrderIndex := do
  let serialNumber ← quint8
  let dispatchNo ← qstring 20
  return { serialNumber, dispatchNo }

/-- What follows the two bytes that every answer to a setting has. -/
def otherBody (dataType : UInt8) : Watch MESOtherResponse := do
  match dataType.toNat with
  | 0x00 =>
    let fileName ← qstring 30
    return { result := .sucess, dataType, fileName }
  | 0x01 =>
    let count ← quint8
    let orderIndexList ← readSyncIndex.times count.toNat
    return { result := .sucess, dataType, orderIndexList }
  | _ => return { result := .sucess, dataType }

/-- `MESOtherResponse::decode`. -/
def decodeOther : Watch MESOtherResponse := do
  let dataType ← quint8
  let _ ← quint8
  otherBody dataType

end Watch

/-! ### The answer to the registration -/

/-- A `QDataStream` on the body. -/
structure Stream where
  data : QByteArray
  pos : Nat := 0

namespace Stream

/-- `readRawData`: at most `len` bytes, to the place `start` of a field of `size` bytes. -/
def readRawData (size start len : Nat) : Watched Access Stream QByteArray :=
  .watch
    (fun s =>
      let bytes := (s.data.drop s.pos).take len
      [.read s.data.length s.pos bytes.length, .write size start bytes.length])
    (fun s =>
      let bytes := (s.data.drop s.pos).take len
      (bytes, { s with pos := s.pos + bytes.length }))

/-- The loop over `FDAT_LastConfigFileVer`, which is an array of ten times six bytes. -/
def versions (i : Nat) : Nat → Watched Access Stream (List QByteArray)
  | 0 => pure []
  | n + 1 => do
    let version ← readRawData 60 (6 * i) 6
    let rest ← versions (i + 1) n
    return version :: rest

/-- `echoInfo`, read from a packet whose checksum is right. -/
def echoInfo : Watched Access Stream MESRegResponse := fun s =>
  (do
    let _ ← readRawData 20 0 20
    let _ ← readRawData 20 0 20
    let permit ← readRawData 1 0 1
    let _ ← readRawData 20 0 20
    let _ ← readRawData 20 0 20
    let time ← readRawData 6 0 6
    let _ ← versions 0 ((s.data.length - 96) / 6)
    let pmsPermit := permit.getD 0 0
    return {
      result :=
        match pmsPermit.toNat with
        | 0x00 => .regOk
        | 0x01 => .regIpNon
        | 0x02 => .regNon
        | 0x03 => .regFileNon
        | _ => .non
      pmsPermit
      serverSystemTime := time ++ List.replicate (6 - time.length) 0 }
    : Watched Access Stream MESRegResponse) s

end Stream

/-! ## What is decoded is what was decoded before -/

namespace Watch

open Watched

theorem erase_times {α : Type} (w : Watch α) (n : Nat) :
    erase (times w n) = Reader.times (erase w) n := by
  induction n with
  | zero => rfl
  | succ n ih =>
    show (do
      let x ← erase w
      let xs ← erase (times w n)
      pure (x :: xs)) = _
    rw [ih]
    rfl

theorem erase_readBoy (order : OrderRow) :
    erase (readBoy order) = MESOrderRequest.readBoy order := by
  unfold readBoy
  simp only [erase_bind, erase_times]
  rfl

/-- Decoding an order. -/
theorem decode_order_eq (db : DB) (pack : MESPack) :
    MESOrderRequest.decode db pack =
      if pack.cmdSerial ≠ 0xD0 then none else some (erase (decodeOrder db) pack).1 := by
  unfold MESOrderRequest.decode decodeOrder
  simp only [erase_bind, erase_times, erase_readBoy, apply_ite erase]
  rfl

theorem erase_controlBody (dataType : UInt8) (cmdCode : QByteArray) (p : MESPack) :
    (erase (controlBody dataType cmdCode) p).1.toMESControlRequest =
      ((match dataType.toNat with
        | 0x04 => do
          let fileName ← Reader.qstring 30
          let fileVer ← Reader.qbytes 20
          return { dataType, cmdCode, fileName, fileVer }
        | 0x05 => do return { dataType, cmdCode, fileName := ← Reader.qstring 30 }
        | 0x07 => do
          let adjustNo ← Reader.qbytes 20
          let count ← Reader.quint8
          let index : Reader OrderIndex := do
            let serialNumber ← Reader.quint8
            let dispatchNo ← Reader.qstring 20
            let dispatchPrior ← Reader.qstring 30
            return { serialNumber, dispatchNo, dispatchPrior }
          return { dataType, cmdCode, adjustNo, orderIndexList := ← index.times count.toNat }
        | 0x0E => do return { dataType, cmdCode, dispatchNo := ← Reader.qstring 20 }
        | _ => return { dataType, cmdCode } : Reader MESControlRequest) p).1 := by
  unfold controlBody
  generalize dataType.toNat = n
  match n with
  | 0x07 =>
    simp only [erase_bind, erase_times]
    rfl
  | 0x00 | 0x01 | 0x02 | 0x03 | 0x04 | 0x05 | 0x06 | 0x08 | 0x09 | 0x0A | 0x0B | 0x0C | 0x0D
  | 0x0E => rfl
  | n + 0x0F => rfl

/-- Two readers that begin alike and go on to results that correspond. -/
theorem fst_bind_eq {α β γ : Type} {r : Reader α} {f : α → Reader β} {f' : α → Reader γ} {g : γ → β}
    {p : MESPack} (h : ∀ a p, (f a p).1 = g (f' a p).1) : ((r >>= f) p).1 = g ((r >>= f') p).1 :=
  h _ _

/-- Decoding a control command. -/
theorem decode_control_eq (pack : MESPack) :
    MESControlRequest.decode pack =
      if pack.cmdSerial ≠ 0xD7 then none
      else some (erase decodeControl pack).1.toMESControlRequest := by
  unfold MESControlRequest.decode decodeControl
  simp only [erase_bind, apply_ite erase]
  by_cases hcmd : pack.cmdSerial ≠ 0xD7
  · rw [if_pos hcmd, if_pos hcmd]
  · rw [if_neg hcmd, if_neg hcmd]
    refine congrArg some (fst_bind_eq fun dataType p => ?_)
    by_cases htype : dataType = 0x01
    · rw [if_pos htype, if_pos htype]
      rfl
    · rw [if_neg htype, if_neg htype]
      exact fst_bind_eq fun cmdCode p => (erase_controlBody dataType cmdCode p).symm

theorem erase_otherBody (dataType : UInt8) :
    erase (otherBody dataType) =
      (match dataType.toNat with
        | 0x00 => do return { result := .sucess, dataType, fileName := ← Reader.qstring 30 }
        | 0x01 => do
          let count ← Reader.quint8
          let index : Reader OrderIndex := do
            let serialNumber ← Reader.quint8
            let dispatchNo ← Reader.qstring 20
            return { serialNumber, dispatchNo }
          return { result := .sucess, dataType, orderIndexList := ← index.times count.toNat }
        | _ => return { result := .sucess, dataType } : Reader MESOtherResponse) := by
  unfold otherBody
  generalize dataType.toNat = n
  match n with
  | 0x00 => rfl
  | 0x01 =>
    simp only [erase_bind, erase_times]
    rfl
  | n + 2 => rfl

/-- Decoding the answer to a setting. -/
theorem decode_other_eq (pack : MESPack) :
    MESOtherResponse.decode pack =
      if pack.cmdSerial ≠ 0x95 then none else some (erase decodeOther pack).1 := by
  unfold MESOtherResponse.decode decodeOther
  simp only [erase_bind, erase_otherBody]
  rfl

end Watch

namespace Stream

open Watched

/-- The stream after `k` bytes were asked for. -/
def upTo (data : QByteArray) (k : Nat) : Stream := { data := data, pos := min k data.length }

variable {data : QByteArray} {k n : Nat}

theorem drop_pos_upTo : (upTo data k).data.drop (upTo data k).pos = data.drop k := by
  show data.drop (min k data.length) = data.drop k
  rcases Nat.le_total k data.length with h | h
  · rw [Nat.min_eq_left h]
  · rw [Nat.min_eq_right h, List.drop_length, List.drop_eq_nil_of_le h]

theorem erase_readRawData (size start : Nat) :
    erase (readRawData size start n) (upTo data k) = ((data.drop k).take n, upTo data (k + n)) := by
  show (((upTo data k).data.drop (upTo data k).pos).take n, Stream.mk data _) = _
  rw [drop_pos_upTo]
  congr 2
  show min k data.length + ((data.drop k).take n).length = min (k + n) data.length
  rw [List.length_take, List.length_drop]
  omega

/-- Decoding the answer to the registration. -/
theorem decode_reg_eq (pack : MESPack) :
    MESRegResponse.decode pack =
      if pack.cmdSerial ≠ 0x81 then none
      else if !pack.checkFlag then some { result := .checkSumErr }
      else some (erase echoInfo { data := pack.body }).1 := by
  have hstart : ({ data := pack.body } : Stream) = upTo pack.body 0 := by
    rw [upTo, Nat.zero_min]
  have hstep : ∀ {β : Type} (size start n k : Nat) (f : QByteArray → Watched Access Stream β),
      erase (readRawData size start n >>= f) (upTo pack.body k) =
        erase (f ((pack.body.drop k).take n)) (upTo pack.body (k + n)) := by
    intro β size start n k f
    show erase (f (erase (readRawData size start n) _).1) (erase (readRawData size start n) _).2 = _
    rw [erase_readRawData]
  have hecho : ∀ s, erase echoInfo s = erase (readRawData 20 0 20 >>= _) s := fun _ => rfl
  unfold MESRegResponse.decode
  rw [hstart, hecho, hstep, hstep, hstep, hstep, hstep, hstep]
  have hpermit : ((pack.body.drop (0 + 20 + 20)).take 1).getD 0 0 = pack.body.getD 40 0 := by
    rw [List.getD_eq_getElem?_getD, List.getElem?_take_of_lt (by omega), List.getElem?_drop,
      List.getD_eq_getElem?_getD]
  rw [hpermit]
  rfl

end Stream

/-! ## Staying inside -/

namespace Stream

open Watched

variable {data : QByteArray} {k n : Nat}

theorem length_take_drop_le : ((data.drop k).take n).length ≤ n ∧
    (((data.drop k).take n).length = 0 ∨
      min k data.length + ((data.drop k).take n).length ≤ data.length) := by
  rw [List.length_take, List.length_drop]
  omega

/-- Bytes read to a field of their number stay inside. -/
theorem clean_readRawData (size start : Nat) :
    Clean Access.Inside (readRawData size start n) (upTo data k) ↔
      ((data.drop k).take n).length = 0 ∨ start + ((data.drop k).take n).length ≤ size := by
  unfold readRawData
  rw [clean_watch]
  show (∀ e ∈ [Access.read data.length _ (List.length _), .write size start (List.length _)], _) ↔ _
  rw [drop_pos_upTo, List.forall_mem_cons, List.forall_mem_singleton]
  exact and_iff_right length_take_drop_le.2

theorem clean_readRawData_zero : Clean Access.Inside (readRawData n 0 n) (upTo data k) := by
  rw [clean_readRawData, Nat.zero_add]
  exact .inr length_take_drop_le.1

/-- The versions stay inside the array of ten when there are no more. -/
theorem clean_versions (i n k : Nat) (h : k + 6 * n ≤ data.length) :
    Clean Access.Inside (versions i n) (upTo data k) ↔ n = 0 ∨ i + n ≤ 10 := by
  induction n generalizing i k with
  | zero => exact iff_of_true (clean_pure _) (.inl rfl)
  | succ n ih =>
    have hlen : ((data.drop k).take 6).length = 6 := by
      rw [List.length_take, List.length_drop]
      omega
    have hrest := ih (i + 1) (k + 6) (by omega)
    rw [versions, clean_bind, clean_readRawData, erase_readRawData, hlen, clean_bind_pure]
    rw [hrest]
    omega

/-- The answer to the registration stays inside when it is shorter than eleven versions make it. -/
theorem clean_echoInfo : Clean Access.Inside echoInfo { data := data } ↔ data.length < 162 := by
  have hstart : ({ data := data } : Stream) = upTo data 0 := by
    rw [upTo, Nat.zero_min]
  have hstep : ∀ {β : Type} (n k : Nat) (f : QByteArray → Watched Access Stream β),
      Clean Access.Inside (readRawData n 0 n >>= f) (upTo data k) ↔
        Clean Access.Inside (f ((data.drop k).take n)) (upTo data (k + n)) := by
    intro β n k f
    rw [clean_bind, erase_readRawData]
    exact and_iff_right clean_readRawData_zero
  have hecho : ∀ s, Clean Access.Inside echoInfo s ↔
      Clean Access.Inside (readRawData 20 0 20 >>= _) s := fun _ => Iff.rfl
  rw [hstart, hecho, hstep, hstep, hstep, hstep, hstep, hstep, clean_bind]
  rw [and_iff_left (clean_pure _)]
  show Clean Access.Inside (versions 0 ((data.length - 96) / 6)) (upTo data 87) ↔ _
  by_cases hzero : (data.length - 96) / 6 = 0
  · rw [hzero]
    exact iff_of_true (clean_pure _) (by omega)
  · rw [clean_versions 0 _ 87 (by omega)]
    omega

end Stream

namespace Watch

open Watched

/-- A watched reader that moves on by `n` bytes whatever it reads, and stays inside exactly if the
first `need` of them are there; it may need none. -/
structure Steps {α : Type} (w : Watch α) (n need : Nat) : Prop where
  moves : ∀ p, (erase w p).2 = p.skip n
  clean : ∀ p : MESPack, 0 ≤ p.atPoint →
    (Clean Access.Inside w p ↔ need = 0 ∨ p.atPoint + need ≤ p.body.length)
  need_le : need ≤ n

theorem skip_skip (p : MESPack) (m n : Nat) : (p.skip m).skip n = p.skip (m + n) := by
  simp [MESPack.skip, Int.add_assoc]

theorem skip_zero (p : MESPack) : p.skip 0 = p := by
  simp [MESPack.skip]

theorem nonneg_skip {p : MESPack} (h : 0 ≤ p.atPoint) (n : Nat) : 0 ≤ (p.skip n).atPoint := by
  show 0 ≤ p.atPoint + n
  omega

/-- What `mid` copies is there. -/
theorem inside_midAccess {p : MESPack} (h : 0 ≤ p.atPoint) (len : Nat) :
    ∀ a ∈ midAccess p len, a.Inside := by
  rw [midAccess, List.forall_mem_singleton]
  show (QByteArray.mid p.body p.atPoint len).length = 0 ∨ _
  unfold QByteArray.mid
  split
  · exact .inl rfl
  · right
    rw [if_neg (by omega), List.length_take, List.length_drop]
    omega

theorem inside_byteRefAccess (array : QByteArray) (i : Nat) :
    ∀ a ∈ byteRefAccess array i, a.Inside := by
  unfold byteRefAccess
  split
  · next h =>
    rw [List.forall_mem_singleton]
    exact .inr h
  · exact List.forall_mem_nil _

/-- `memcpy` stays inside if all bytes asked for are there. -/
theorem inside_byteAccess {p : MESPack} (h : 0 ≤ p.atPoint) {len : Nat} (hlen : len ≠ 0) :
    (∀ a ∈ byteAccess len p, a.Inside) ↔ p.atPoint + len ≤ p.body.length := by
  have hmid : (QByteArray.mid p.body p.atPoint len).length = min len (p.body.length - p.atPoint.toNat) := by
    unfold QByteArray.mid
    split
    · rw [List.length_nil]
      omega
    · rw [if_neg (by omega), List.length_take, List.length_drop, Int.toNat_natCast]
  rw [byteAccess, List.forall_mem_append, List.forall_mem_cons, List.forall_mem_singleton]
  rw [and_iff_right (inside_midAccess h len)]
  show ((len = 0 ∨ 0 + len ≤ (QByteArray.mid p.body p.atPoint len).length) ∧
    (len = 0 ∨ 0 + len ≤ len)) ↔ _
  rw [hmid]
  omega

namespace Steps

variable {α β : Type} {w : Watch α} {f : α → Watch β} {n n' need need' : Nat}

theorem pure (a : α) : Steps (Pure.pure a : Watch α) 0 0 where
  moves p := (skip_zero p).symm
  clean _ _ := iff_of_true (clean_pure a) (.inl rfl)
  need_le := Nat.le_refl 0

theorem bind (h : Steps w n need) (h' : ∀ a, Steps (f a) n' need') :
    Steps (w >>= f) (n + n') (if need' = 0 then need else n + need') where
  moves p := by
    show (erase (f (erase w p).1) (erase w p).2).2 = _
    rw [(h' _).moves, h.moves, skip_skip]
  clean p hp := by
    have hle := h.need_le
    rw [clean_bind, h.clean p hp, h.moves, (h' _).clean _ (nonneg_skip hp n)]
    show _ ∧ (need' = 0 ∨ p.atPoint + n + need' ≤ p.body.length) ↔ _
    split
    · omega
    · omega
  need_le := by
    have hle := h.need_le
    split
    · omega
    · exact Nat.add_le_add_left (h' (erase w {}).1).need_le n

theorem cast (h : Steps w n need) (hn : n = n') (hneed : need = need') : Steps w n' need' := by
  subst hn hneed
  exact h

/-- What follows starts where the reader ends. -/
theorem erase_bind (h : Steps w n need) (p : MESPack) :
    erase (w >>= f) p = erase (f (erase w p).1) (p.skip n) := by
  show erase (f (erase w p).1) (erase w p).2 = _
  rw [h.moves]

/-- A loop that needs nothing. -/
theorem times_zero (h : Steps w n 0) (k : Nat) : Steps (times w k) (k * n) 0 := by
  induction k with
  | zero => exact (pure []).cast (Nat.zero_mul n).symm rfl
  | succ k ih =>
    refine (h.bind fun _ => ih.bind fun _ => pure _).cast ?_ rfl
    rw [Nat.succ_mul]
    omega

/-- A loop that needs all it passes over. -/
theorem times_full (h : Steps w n n) (k : Nat) : Steps (times w k) (k * n) (k * n) := by
  induction k with
  | zero => exact (pure []).cast (Nat.zero_mul n).symm (Nat.zero_mul n).symm
  | succ k ih =>
    refine (h.bind fun _ => ih.bind fun _ => pure _).cast ?_ ?_
    · rw [Nat.succ_mul]
      omega
    · rw [if_pos rfl, Nat.succ_mul]
      split
      · omega
      · omega

theorem quint8 : Steps Watch.quint8 1 0 where
  moves _ := rfl
  clean _ _ := iff_of_true (inside_byteRefAccess _ _) (.inl rfl)
  need_le := Nat.zero_le 1

theorem qstring (len : Nat) : Steps (Watch.qstring len) len 0 where
  moves _ := rfl
  clean _ hp := iff_of_true (inside_midAccess hp len) (.inl rfl)
  need_le := Nat.zero_le len

theorem qbytes (len : Nat) : Steps (Watch.qbytes len) len 0 where
  moves _ := rfl
  clean _ hp := iff_of_true (inside_midAccess hp len) (.inl rfl)
  need_le := Nat.zero_le len

theorem qDateTime : Steps Watch.qDateTime 6 0 where
  moves _ := rfl
  clean p hp := by
    refine iff_of_true ?_ (.inl rfl)
    intro a ha
    rcases List.mem_append.mp ha with ha | ha
    · exact inside_midAccess hp 6 a ha
    · obtain ⟨i, -, ha⟩ := List.mem_flatMap.mp ha
      exact inside_byteRefAccess _ i a ha
  need_le := Nat.zero_le 6

theorem quint16 : Steps Watch.quint16 2 2 where
  moves _ := rfl
  clean _ hp := (inside_byteAccess hp (by decide)).trans (or_iff_right (by decide)).symm
  need_le := Nat.le_refl 2

theorem quint32 : Steps Watch.quint32 4 4 where
  moves _ := rfl
  clean _ hp := (inside_byteAccess hp (by decide)).trans (or_iff_right (by decide)).symm
  need_le := Nat.le_refl 4

theorem qint32 : Steps Watch.qint32 4 4 := quint32.bind fun _ => pure _

theorem readOrder : Steps Watch.readOrder 161 158 :=
  ((qstring 20).bind fun _ => (qstring 30).bind fun _ => (qstring 20).bind fun _ =>
    (qstring 50).bind fun _ => (qstring 10).bind fun _ => (qstring 20).bind fun _ =>
    qint32.bind fun _ => qint32.bind fun _ => quint8.bind fun _ => quint8.bind fun _ =>
    quint8.bind fun _ => pure _).cast rfl rfl

theorem readBoy (order : OrderRow) :
    Steps (Watch.readBoy order) (132 + 4 * order.moBadReasonNum.toNatClampNeg)
      (132 + 4 * order.moBadReasonNum.toNatClampNeg) := by
  refine ((qstring 20).bind fun _ => (qstring 20).bind fun _ => (qstring 50).bind fun _ =>
    (qstring 20).bind fun _ => qint32.bind fun _ => quint8.bind fun _ => quint8.bind fun _ =>
    qint32.bind fun _ => qint32.bind fun _ => qint32.bind fun _ =>
    (qint32.times_full order.moBadReasonNum.toNatClampNeg).bind fun _ => qint32.bind fun _ =>
    pure _).cast ?_ ?_
  · omega
  · simp
    omega

theorem readMaterial (order : OrderRow) : Steps (Watch.readMaterial order) 150 0 :=
  ((qstring 50).bind fun _ => (qstring 100).bind fun _ => pure _).cast rfl rfl

end Steps

/-- A watched reader that stays inside wherever it starts. -/
def Quiet {α : Type} (w : Watch α) : Prop :=
  ∀ p : MESPack, 0 ≤ p.atPoint → Clean Access.Inside w p ∧ 0 ≤ (erase w p).2.atPoint

section Quiet

variable {α β : Type} {w : Watch α} {f : α → Watch β} {n : Nat}

theorem Steps.quiet (h : Steps w n 0) : Quiet w := by
  intro p hp
  refine ⟨(h.clean p hp).mpr (.inl rfl), ?_⟩
  rw [h.moves]
  exact nonneg_skip hp n

theorem Quiet.bind (h : Quiet w) (h' : ∀ a, Quiet (f a)) : Quiet (w >>= f) := by
  intro p hp
  obtain ⟨hw, hnonneg⟩ := h p hp
  obtain ⟨hf, hnonneg'⟩ := h' (erase w p).1 _ hnonneg
  exact ⟨clean_bind.mpr ⟨hw, hf⟩, hnonneg'⟩

theorem quiet_pure (a : α) : Quiet (pure a : Watch α) := (Steps.pure a).quiet

end Quiet

theorem steps_readIndex : Steps readIndex 51 0 :=
  (Steps.quint8.bind fun _ => (Steps.qstring 20).bind fun _ => (Steps.qstring 30).bind fun _ =>
    Steps.pure _).cast rfl rfl

theorem steps_readClass : Steps readClass 5 0 :=
  (Steps.quint8.bind fun _ => Steps.quint8.bind fun _ => Steps.quint8.bind fun _ =>
    Steps.quint8.bind fun _ => Steps.quint8.bind fun _ => Steps.pure _).cast rfl rfl

theorem steps_readSyncIndex : Steps readSyncIndex 21 0 :=
  (Steps.quint8.bind fun _ => (Steps.qstring 20).bind fun _ => Steps.pure _).cast rfl rfl

/-- The answer to a setting reads no number of more than a byte. -/
theorem quiet_decodeOther : Quiet decodeOther := by
  refine Steps.quint8.quiet.bind fun dataType => Steps.quint8.quiet.bind fun _ => ?_
  unfold otherBody
  generalize dataType.toNat = n
  match n with
  | 0x00 => exact (Steps.qstring 30).quiet.bind fun _ => quiet_pure _
  | 0x01 =>
    exact Steps.quint8.quiet.bind fun count =>
      (steps_readSyncIndex.times_zero count.toNat).quiet.bind fun _ => quiet_pure _
  | n + 2 => exact quiet_pure _

/-- Of the control commands only the SQL statement has a word in it. -/
theorem quiet_controlBody {dataType : UInt8} (cmdCode : QByteArray) (h : dataType ≠ 0x0B) :
    Quiet (controlBody dataType cmdCode) := by
  unfold controlBody
  have hne : dataType.toNat ≠ 0x0B := fun heq => h (UInt8.toNat_inj.mp heq)
  revert hne
  generalize dataType.toNat = n
  intro hne
  match n with
  | 0x02 => exact Steps.qDateTime.quiet.bind fun _ => quiet_pure _
  | 0x04 =>
    exact (Steps.qstring 30).quiet.bind fun _ => (Steps.qbytes 20).quiet.bind fun _ => quiet_pure _
  | 0x05 | 0x0C => exact (Steps.qstring 30).quiet.bind fun _ => quiet_pure _
  | 0x06 => exact (Steps.qstring 10).quiet.bind fun _ => quiet_pure _
  | 0x07 =>
    exact (Steps.qbytes 20).quiet.bind fun _ => Steps.quint8.quiet.bind fun count =>
      (steps_readIndex.times_zero count.toNat).quiet.bind fun _ => quiet_pure _
  | 0x0B => exact absurd rfl hne
  | 0x0D =>
    exact Steps.quint8.quiet.bind fun count =>
      (steps_readClass.times_zero count.toNat).quiet.bind fun _ => quiet_pure _
  | 0x0E => exact (Steps.qstring 20).quiet.bind fun _ => quiet_pure _
  | 0x00 | 0x01 | 0x03 | 0x08 | 0x09 | 0x0A => exact quiet_pure _
  | n + 0x0F => exact quiet_pure _

theorem clean_sqlBody (cmdCode : QByteArray) {p : MESPack} (hp : 0 ≤ p.atPoint) :
    Clean Access.Inside (controlBody 0x0B cmdCode) p ↔ p.atPoint + 2 ≤ p.body.length := by
  show Clean Access.Inside (quint16 >>= fun len => qstring len.toNat >>= fun _ => pure _) p ↔ _
  rw [clean_bind, Steps.quint16.clean p hp, Steps.quint16.moves]
  have hrest := (((Steps.qstring (erase quint16 p).1.toNat).quiet.bind fun sql =>
    quiet_pure ({ dataType := 0x0B, cmdCode := cmdCode, sql := sql } : ControlRequest))
    (p.skip 2) (nonneg_skip hp 2)).1
  rw [and_iff_left hrest]
  exact or_iff_right (by decide)

/-- A control command stays inside unless it is an SQL statement without the length of it. -/
theorem clean_decodeControl {pack : MESPack} (hpos : pack.atPoint = 0) :
    Clean Access.Inside decodeControl pack ↔
      (QByteArray.byteAt pack.body 0 = 0x0B → 23 ≤ pack.body.length) := by
  have hp : 0 ≤ pack.atPoint := by omega
  have htype : (erase quint8 pack).1 = QByteArray.byteAt pack.body 0 := by
    show QByteArray.byteAt pack.body pack.atPoint = _
    rw [hpos]
  unfold decodeControl
  rw [clean_bind, and_iff_right (Steps.quint8.quiet pack hp).1, Steps.quint8.moves, htype]
  by_cases h1 : QByteArray.byteAt pack.body 0 = 0x01
  · rw [if_pos h1, h1]
    exact iff_of_true (clean_pure _) (fun h => absurd h (by decide))
  · rw [if_neg h1, clean_bind, and_iff_right ((Steps.qbytes 20).quiet _ (nonneg_skip hp 1)).1,
      (Steps.qbytes 20).moves, skip_skip]
    have hp' := nonneg_skip hp 21
    by_cases hsql : QByteArray.byteAt pack.body 0 = 0x0B
    · rw [hsql, clean_sqlBody _ hp']
      show pack.atPoint + 21 + 2 ≤ pack.body.length ↔ _
      rw [hpos, forall_prop_of_true rfl]
      omega
    · exact iff_of_true (quiet_controlBody _ hsql _ hp').1 (fun h => absurd h hsql)

/-! ### Orders -/

/-- The numbers of products and of reasons in the body of an order. -/
def multiNum (body : QByteArray) : Nat := (QByteArray.byteAt body 160).toNat
def badReasonNum (body : QByteArray) : Nat := (QByteArray.byteAt body 162).toNat

/-- The two numbers are read where they stand. -/
theorem erase_readOrder (p : MESPack) :
    (erase readOrder p).1.moMultiNum = byteToInt (QByteArray.byteAt p.body (p.atPoint + 158)) ∧
    (erase readOrder p).1.moBadReasonNum =
      byteToInt (QByteArray.byteAt p.body (p.atPoint + 160)) := by
  unfold readOrder
  rw [(Steps.qstring 20).erase_bind, (Steps.qstring 30).erase_bind, (Steps.qstring 20).erase_bind,
    (Steps.qstring 50).erase_bind, (Steps.qstring 10).erase_bind, (Steps.qstring 20).erase_bind,
    Steps.qint32.erase_bind, Steps.qint32.erase_bind, Steps.quint8.erase_bind,
    Steps.quint8.erase_bind, Steps.quint8.erase_bind]
  simp only [skip_skip, Nat.reduceAdd]
  exact ⟨rfl, rfl⟩

/-- The section of the materials is read by readers that look at the size. -/
theorem quiet_materials (dataType : UInt16) (order : OrderRow) (order' : Order) :
    Quiet (do
      if (← look).isReadEnd then
        return { dataType, order := order' }
      else
        let matCount ← quint8
        let materialList ← (readMaterial order).times matCount.toNat
        return { dataType, order := order', materialList } : Watch MESOrderRequest) := by
  have hlook : Quiet look := fun p hp => ⟨(fun _ ha => nomatch ha), hp⟩
  refine hlook.bind fun p => ?_
  split
  · exact quiet_pure _
  · exact Steps.quint8.quiet.bind fun count =>
      ((Steps.readMaterial order).times_zero count.toNat).quiet.bind fun _ => quiet_pure _

/-- What decoding an order needs: the columns up to the number of moulds, and all of the products
that are announced. -/
theorem clean_decodeOrder (db : DB) {pack : MESPack} (hpos : pack.atPoint = 0) :
    Clean Access.Inside (decodeOrder db) pack ↔
      160 ≤ pack.body.length ∧ (multiNum pack.body = 0 ∨
        163 + multiNum pack.body * (132 + 4 * badReasonNum pack.body) ≤ pack.body.length) := by
  have hp : 0 ≤ pack.atPoint := by omega
  obtain ⟨hmulti, hbad⟩ := erase_readOrder (pack.skip 2)
  have hat : ∀ n : Nat, (pack.skip 2).atPoint + n = (2 + n : Nat) := by
    intro n
    show pack.atPoint + 2 + n = _
    omega
  have hmulti' : (erase readOrder (pack.skip 2)).1.moMultiNum.toNatClampNeg =
      multiNum pack.body := by
    rw [hmulti, MESOrderRequest.toNatClampNeg_byteToInt]
    exact congrArg (fun i => (QByteArray.byteAt pack.body i).toNat) (hat 158)
  have hbad' : (erase readOrder (pack.skip 2)).1.moBadReasonNum.toNatClampNeg =
      badReasonNum pack.body := by
    rw [hbad, MESOrderRequest.toNatClampNeg_byteToInt]
    exact congrArg (fun i => (QByteArray.byteAt pack.body i).toNat) (hat 160)
  have hboys := (Steps.readBoy (erase readOrder (pack.skip 2)).1).times_full
    (erase readOrder (pack.skip 2)).1.moMultiNum.toNatClampNeg
  have hp163 := nonneg_skip hp 163
  have hend := nonneg_skip hp163 (multiNum pack.body * (132 + 4 * badReasonNum pack.body))
  rw [hmulti', hbad'] at hboys
  unfold decodeOrder
  rw [clean_bind, Steps.quint16.clean pack hp, Steps.quint16.moves, clean_bind,
    Steps.readOrder.clean _ (nonneg_skip hp 2), Steps.readOrder.moves, skip_skip, clean_bind, hmulti',
    hboys.clean _ hp163, hboys.moves, and_iff_left (quiet_materials _ _ _ _ hend).1]
  show (2 = 0 ∨ pack.atPoint + 2 ≤ pack.body.length) ∧
    (158 = 0 ∨ pack.atPoint + 2 + 158 ≤ pack.body.length) ∧
    (_ ∨ pack.atPoint + 163 + _ ≤ (pack.body.length : Int)) ↔ _
  rw [hpos]
  have hzero : multiNum pack.body * (132 + 4 * badReasonNum pack.body) = 0 ↔
      multiNum pack.body = 0 := by
    rw [Nat.mul_eq_zero]
    exact or_iff_left (by omega)
  rw [hzero]
  omega

end Watch

/-! ## All decoders -/

/-- The decoders, called on a packet, stay inside the body and inside what they write to. A decoder
whose command it is not does nothing, and the one of the registration stops at a wrong checksum. -/
structure StaysInside (db : DB) (pack : MESPack) : Prop where
  order : pack.cmdSerial = 0xD0 → Watched.Clean Access.Inside (Watch.decodeOrder db) pack
  control : pack.cmdSerial = 0xD7 → Watched.Clean Access.Inside Watch.decodeControl pack
  other : pack.cmdSerial = 0x95 → Watched.Clean Access.Inside Watch.decodeOther pack
  reg : pack.cmdSerial = 0x81 → pack.checkFlag = true →
    Watched.Clean Access.Inside Stream.echoInfo { data := pack.body }

/-- The body is as long as the decoder takes it to be, and no longer. -/
@[mk_iff] structure Bounded (pack : MESPack) : Prop where
  order : pack.cmdSerial = 0xD0 → 160 ≤ pack.body.length ∧ (Watch.multiNum pack.body = 0 ∨
    163 + Watch.multiNum pack.body * (132 + 4 * Watch.badReasonNum pack.body) ≤ pack.body.length)
  control : pack.cmdSerial = 0xD7 → QByteArray.byteAt pack.body 0 = 0x0B → 23 ≤ pack.body.length
  reg : pack.cmdSerial = 0x81 → pack.checkFlag = true → pack.body.length < 162

instance (pack : MESPack) : Decidable (Bounded pack) := decidable_of_iff' _ (bounded_iff pack)

theorem staysInside_iff (db : DB) {pack : MESPack} (hpos : pack.atPoint = 0) :
    StaysInside db pack ↔ Bounded pack := by
  constructor
  · intro h
    exact ⟨fun hcmd => (Watch.clean_decodeOrder db hpos).mp (h.order hcmd),
      fun hcmd => (Watch.clean_decodeControl hpos).mp (h.control hcmd),
      fun hcmd hflag => Stream.clean_echoInfo.mp (h.reg hcmd hflag)⟩
  · intro h
    exact ⟨fun hcmd => (Watch.clean_decodeOrder db hpos).mpr (h.order hcmd),
      fun hcmd => (Watch.clean_decodeControl hpos).mpr (h.control hcmd),
      fun _ => (Watch.quiet_decodeOther pack (by omega)).1,
      fun hcmd hflag => Stream.clean_echoInfo.mpr (h.reg hcmd hflag)⟩

/-- The password of the device. -/
theorem staysInside_password :
    StaysInside {} { cmdSerial := 0xD7, body := 0x06 :: List.replicate 30 0x31 } :=
  (staysInside_iff {} rfl).mpr (by decide)

/-- An SQL statement that ends before its length. -/
theorem not_staysInside_sql :
    ¬ ∀ db pack, pack.atPoint = 0 → StaysInside db pack := by
  intro h
  have hclean := (h {} { cmdSerial := 0xD7, body := 0x0B :: List.replicate 20 0x31 } rfl).control rfl
  exact absurd ((Watch.clean_decodeControl rfl).mp hclean rfl) (by decide)

end ProgrammingPath.Mes
