import ProgrammingPath.Mes.Order
import ProgrammingPath.Mes.Pack

/-!
# Requests and responses (`NetCSCP/mesrequest.h`, `NetCSCP/mesrequest.cpp`)

The `decode` functions. Each takes the body apart field by field, so they are written as readers
over the packet, which carries the read position. A decoder whose command byte does not match
fails; what it does with a packet whose checksum is wrong differs from decoder to decoder:

* the registration response and the two file responses report `checkSumErr` and *succeed*, with
  all other fields at their defaults;
* the others do not look.
-/

namespace ProgrammingPath.Mes

open ProgrammingPath.Qt ProgrammingPath.Lib

/-- Reading the body of a packet. -/
abbrev Reader := StateM MESPack

namespace Reader

def quint8 : Reader UInt8 := MESPack.readQUint8
def quint16 : Reader UInt16 := MESPack.readQUint16
def quint32 : Reader UInt32 := MESPack.readQUint32
def qint32 : Reader Int32 := do return (← quint32).toInt32
def qstring (len : Int) : Reader QString := fun p => p.readToQString len
def qbytes (len : Int) : Reader QByteArray := fun p => p.readToQByteArray len
def qDateTime : Reader QDateTime := MESPack.readQDateTime

/-- Read the same thing `n` times. -/
def times {α : Type} (r : Reader α) : Nat → Reader (List α)
  | 0 => return []
  | n + 1 => do
    let x ← r
    let xs ← r.times n
    return x :: xs

end Reader

/-- An `int` that was read as an unsigned byte. -/
def byteToInt (b : UInt8) : Int32 := Int32.ofNat b.toNat

/-- `FDATResultFormatAppendix`: the result codes of the appendix. -/
def fdatResultFormatAppendix (v : UInt8) : FDATResult :=
  match v.toNat with
  | 0x00 => .sucess
  | 0x01 => .failed
  | 0x02 => .restart
  | 0x03 => .notPermission
  | 0x04 => .sucessSwingCard
  | 0x05 => .notDownWork
  | 0x06 => .notUpWork
  | 0x07 => .nonSwingCard
  | 0x08 => .sucessUpfile
  | 0x09 => .failedUpfile
  | _ => .non

/-! ## Responses of the server -/

/-- `MESRegResponse`, with the fields of `echoInfo` that are looked at. -/
structure MESRegResponse where
  result : FDATResult := .non
  pmsPermit : UInt8 := 0
  serverSystemTime : QByteArray := List.replicate 6 0
  deriving DecidableEq, Repr

def MESRegResponse.decode (pack : MESPack) : Option MESRegResponse :=
  if pack.cmdSerial ≠ 0x01 + 0x80 then none
  else if !pack.checkFlag then some { result := .checkSumErr }
  else
    let pmsPermit := pack.body.getD 40 0
    let time := (pack.body.drop 81).take 6
    some
      { result :=
          match pmsPermit.toNat with
          | 0x00 => .regOk
          | 0x01 => .regIpNon
          | 0x02 => .regNon
          | 0x03 => .regFileNon
          | _ => .non
        pmsPermit := pmsPermit
        serverSystemTime := time ++ List.replicate (6 - time.length) 0 }

structure MESFileDownResponse where
  result : FDATResult := .non
  fileName : QString := []
  lastFileVer : QByteArray := []
  lastFileSize : UInt32 := 0
  lastFileChecksum : UInt32 := 0
  fdatResult : UInt8 := 0xFF
  deriving DecidableEq, Repr

def MESFileDownResponse.decode (pack : MESPack) : Option MESFileDownResponse :=
  if pack.cmdSerial ≠ 0x40 + 0x80 then none
  else if !pack.checkFlag then some { result := .checkSumErr }
  else
    let fields : Reader MESFileDownResponse := do
      let fileName ← Reader.qstring 30
      let lastFileVer ← Reader.qbytes 10
      let lastFileSize ← Reader.quint32
      let lastFileChecksum ← Reader.quint32
      let fdatResult ← Reader.quint8
      let result : FDATResult :=
        match fdatResult.toNat with
        | 0x00 => .fileDownAllow
        | 0x01 => .fileDownVersionCmp
        | 0x02 => .fileDownSpaceSmall
        | 0x03 => .fileDownServerBusy
        | 0x04 => .fileDownOther
        | _ => .non
      return { result, fileName, lastFileVer, lastFileSize, lastFileChecksum, fdatResult }
    some (fields pack).1

structure MESFileDownStreamResponse where
  result : FDATResult := .non
  fileName : QString := []
  offsetAddr : UInt32 := 0
  data : QByteArray := []
  dataType : UInt8 := 0
  deriving DecidableEq, Repr

def MESFileDownStreamResponse.decode (pack : MESPack) : Option MESFileDownStreamResponse :=
  if pack.cmdSerial ≠ 0x41 + 0x80 then none
  else if !pack.checkFlag then some { result := .checkSumErr }
  else
    let fields : Reader MESFileDownStreamResponse := do
      let fileName ← Reader.qstring 30
      let offsetAddr ← Reader.quint32
      let data ← Reader.qbytes ((pack.body.length : Int) - 30 - 4 - 1)
      let dataType ← Reader.quint8
      let result : FDATResult :=
        match dataType.toNat with
        | 0x00 => .fileDownData
        | 0x01 => .fileDownAddErr
        | 0x02 => .fileDownPakErr
        | _ => .non
      return { result, fileName, offsetAddr, data, dataType }
    some (fields pack).1

/-- `MESADJMachineResponse::decode`. -/
def MESADJMachineResponse.decode (pack : MESPack) : Option FDATResult :=
  if pack.cmdSerial ≠ 0x14 + 0x80 then none
  else some (fdatResultFormatAppendix pack.readQUint8.1)

/-- An entry of an order list: its place and its number. -/
structure OrderIndex where
  serialNumber : UInt8
  dispatchNo : QString
  dispatchPrior : QString := []
  deriving DecidableEq, Repr

structure MESOtherResponse where
  result : FDATResult := .non
  dataType : UInt8 := 0
  fileName : QString := []
  orderIndexList : List OrderIndex := []
  deriving DecidableEq, Repr

/-- `MESOtherResponse::decode`. The result byte is read and then not used: `Result` is always
`FDAT_RESULT_SUCESS`. -/
def MESOtherResponse.decode (pack : MESPack) : Option MESOtherResponse :=
  if pack.cmdSerial ≠ 0x15 + 0x80 then none
  else
    let fields : Reader MESOtherResponse := do
      let dataType ← Reader.quint8
      let _ ← Reader.quint8
      match dataType.toNat with
      | 0x00 => return { result := .sucess, dataType, fileName := ← Reader.qstring 30 }
      | 0x01 =>
        let count ← Reader.quint8
        let index : Reader OrderIndex := do
          let serialNumber ← Reader.quint8
          let dispatchNo ← Reader.qstring 20
          return { serialNumber, dispatchNo }
        return { result := .sucess, dataType, orderIndexList := ← index.times count.toNat }
      | _ => return { result := .sucess, dataType }
    some (fields pack).1

/-- The data type of an answer to settings is its first byte. -/
theorem MESOtherResponse.dataType_of_decode {pack : MESPack} {response : MESOtherResponse}
    (h : MESOtherResponse.decode pack = some response) :
    response.dataType = pack.readQUint8.1 := by
  unfold MESOtherResponse.decode at h
  split at h
  · cases h
  · rw [Option.some.injEq] at h
    subst h
    simp only [bind, StateT.bind, pure]
    split
    next dataType p heq =>
    have htype : pack.readQUint8.1 = dataType := congrArg Prod.fst heq
    rw [htype]
    split
    generalize dataType.toNat = n
    match n with
    | 0 => rfl
    | 1 => rfl
    | n + 2 => rfl

/-! ## Requests of the server -/

structure MESOrderRequest where
  dataType : UInt16 := 0
  order : Order := {}
  materialList : List Material := []
  deriving DecidableEq, Repr

namespace MESOrderRequest

/-- The columns of an order, as they stand in the body. -/
def readOrder : Reader OrderRow := do
  let moDispatchNo ← Reader.qstring 20
  let moDispatchPrior ← Reader.qstring 30
  let moProcCode ← Reader.qstring 20
  let moProcName ← Reader.qstring 50
  let moStaCode ← Reader.qstring 10
  let moStaName ← Reader.qstring 20
  let moStandCycle ← Reader.qint32
  let moTotalNum ← Reader.qint32
  let moMultiNum ← Reader.quint8
  let moBadTypeNo ← Reader.quint8
  let moBadReasonNum ← Reader.quint8
  return {
    moDispatchNo, moDispatchPrior, moProcCode, moProcName, moStaCode, moStaName, moStandCycle,
    moTotalNum, moMultiNum := byteToInt moMultiNum, moBadTypeNo := byteToInt moBadTypeNo,
    moBadReasonNum := byteToInt moBadReasonNum }

/-- One product of the order. The good pieces made so far are computed here: moulds times
cavities, plus adjustment, minus defects. -/
def readBoy (order : OrderRow) : Reader OrderBoy := do
  let pcsMo ← Reader.qstring 20
  let pcsItemNo ← Reader.qstring 20
  let pcsItemName ← Reader.qstring 50
  let pcsMouldNo ← Reader.qstring 20
  let pcsDispatchQty ← Reader.qint32
  let pcsSocketNum1 ← Reader.quint8
  let pcsSocketNum2 ← Reader.quint8
  let pcsFitMachineMin ← Reader.qint32
  let pcsFitMachineMax ← Reader.qint32
  let pcsBadQty ← Reader.qint32
  let pcsBadData ← Reader.qint32.times order.moBadReasonNum.toNatClampNeg
  let pcsAdjNum ← Reader.qint32
  return {
    pcsMo, pcsItemNo, pcsItemName, pcsMouldNo, pcsDispatchQty,
    pcsSocketNum1 := byteToInt pcsSocketNum1, pcsSocketNum2 := byteToInt pcsSocketNum2,
    pcsFitMachineMin, pcsFitMachineMax, pcsBadQty, pcsBadData, pcsAdjNum,
    totalOkNum := order.moTotalNum * byteToInt pcsSocketNum2 + pcsAdjNum - pcsBadQty }

def readMaterial (order : OrderRow) : Reader Material := do
  let materialNo ← Reader.qstring 50
  let materialName ← Reader.qstring 100
  return { dispatchNo := order.moDispatchNo, materialNo, materialName }

/-- `MESOrderRequest::decode`. Every product goes through `order.getBoy().append(boy)`, and
`getBoy` first appends what the database holds for that number. -/
def decode (db : DB) (pack : MESPack) : Option MESOrderRequest :=
  if pack.cmdSerial ≠ 0xD0 then none
  else
    let fields : Reader MESOrderRequest := do
      let dataType ← Reader.quint16
      let order ← readOrder
      let boys ← (readBoy order).times order.moMultiNum.toNatClampNeg
      let orderBoyList := boys.flatMap (fun boy => db.boys order.moDispatchNo ++ [boy])
      let order' : Order := { toOrderRow := order, orderBoyList := orderBoyList }
      if (← get).isReadEnd then
        return { dataType, order := order' }
      else
        let matCount ← Reader.quint8
        let materialList ← (readMaterial order).times matCount.toNat
        return { dataType, order := order', materialList }
    some (fields pack).1

end MESOrderRequest

/-- `MESControlRequest`; the fields of the commands that no listener acts on are left out. -/
structure MESControlRequest where
  dataType : UInt8 := 0
  cmdCode : QByteArray := []
  fileName : QString := []
  fileVer : QByteArray := []
  adjustNo : QByteArray := []
  orderIndexList : List OrderIndex := []
  dispatchNo : QString := []
  deriving DecidableEq, Repr

def MESControlRequest.decode (pack : MESPack) : Option MESControlRequest :=
  if pack.cmdSerial ≠ 0xD7 then none
  else
    let fields : Reader MESControlRequest := do
      let dataType ← Reader.quint8
      if dataType = 0x01 then
        return { dataType }
      let cmdCode ← Reader.qbytes 20
      match dataType.toNat with
      | 0x04 =>
        let fileName ← Reader.qstring 30
        let fileVer ← Reader.qbytes 20
        return { dataType, cmdCode, fileName, fileVer }
      | 0x05 => return { dataType, cmdCode, fileName := ← Reader.qstring 30 }
      | 0x07 =>
        let adjustNo ← Reader.qbytes 20
        let count ← Reader.quint8
        let index : Reader OrderIndex := do
          let serialNumber ← Reader.quint8
          let dispatchNo ← Reader.qstring 20
          let dispatchPrior ← Reader.qstring 30
          return { serialNumber, dispatchNo, dispatchPrior }
        return { dataType, cmdCode, adjustNo, orderIndexList := ← index.times count.toNat }
      | 0x0E => return { dataType, cmdCode, dispatchNo := ← Reader.qstring 20 }
      | _ => return { dataType, cmdCode }
    some (fields pack).1

structure MESNoticeRequest where
  startTime : QDateTime
  endTime : QDateTime
  text : QString
  deriving DecidableEq, Repr

def MESNoticeRequest.decode (pack : MESPack) : Option MESNoticeRequest :=
  if pack.cmdSerial ≠ 0xD8 then none
  else
    let fields : Reader MESNoticeRequest := do
      let startTime ← Reader.qDateTime
      let endTime ← Reader.qDateTime
      let noticeLen ← Reader.quint16
      let text ← Reader.qstring noticeLen.toNat
      return { startTime, endTime, text }
    some (fields pack).1

end ProgrammingPath.Mes
