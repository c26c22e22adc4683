import ProgrammingPath.Lib.Pieces
import ProgrammingPath.Mes.OrderLayout

/-!
# The bodies of mould records and settings

`MESProduceRequest` and `MESOtherRequest` write their bodies field by field, next to comments that
say which fields a body has and how wide they are. Here the constructors stand beside the layouts
of the comments, and `body_eq_layout_iff` says for each kind of message when the two agree:

* a text whose characters are not all single bytes makes its field too wide;
* a mould record has the start of the cycle in the place of its end, and no start at its end;
* the number of a material is filled with its batch number;
* the station of a stop card has twenty bytes instead of ten;
* the electricity charge has no station at all.
-/

namespace ProgrammingPath.Mes

open ProgrammingPath.Qt ProgrammingPath.Lib

/-! ## Card numbers -/

/-- The value of a hexadecimal digit. -/
def hexDigit (b : UInt8) : Option Nat :=
  if 0x30 ≤ b ∧ b ≤ 0x39 then some (b.toNat - 0x30)
  else if 0x41 ≤ b ∧ b ≤ 0x46 then some (b.toNat - 0x41 + 10)
  else if 0x61 ≤ b ∧ b ≤ 0x66 then some (b.toNat - 0x61 + 10)
  else none

/-- The digits at the front of a text, as a number. -/
def hexPrefix (n : Nat) : QString → Nat
  | [] => n
  | b :: s =>
    match hexDigit b with
    | some d => hexPrefix (16 * n + d) s
    | none => n

/-- `toInt(&ok, 16)`, and `sscanf` with `%x` where that fails: spaces, a sign and `0x` may precede
the digits, and what does not fit in 32 bits is cut off at the largest number. -/
def hexNumber (s : QString) : UInt32 :=
  let s := s.dropWhile (fun b => b == 0x20 || (0x09 ≤ b && b ≤ 0x0D))
  let negative := s.head? == some 0x2D
  let s := if negative || s.head? == some 0x2B then s.tail else s
  let s :=
    match s with
    | 0x30 :: x :: d :: t =>
      if (x == 0x78 || x == 0x58) && (hexDigit d).isSome then d :: t else s
    | _ => s
  let v := UInt32.ofNat (min (hexPrefix 0 s) 0xFFFFFFFF)
  if negative then -v else v

/-- The ten bytes of a card: `MESTool::QStringToICCardID` fills in four, high byte first. -/
def cardField (ic : QString) : QByteArray :=
  (MESPack.dwordField (hexNumber ic)).reverse ++ List.replicate 6 0

/-- The six bytes of a date that is given as a text. -/
def dateField (s : QString) : QByteArray := MESPack.qdateTimeField (qstringToDateTime s)

namespace MESPack

def writeQStringIC (p : MESPack) (ic : QString) : MESPack := p.append (cardField ic)

end MESPack

/-! ## Settings (`entity::OtherSetInfo`) -/

namespace OtherSetInfo

structure UpgradeFile where
  fileName : QString := []
  result : Int32 := 0

structure AdjOrder where
  serialNumber : Int32 := 0
  dispatchNo : QString := []
  dispatchPrior : QString := []
  deriving DecidableEq, Repr

structure ItemProduct where
  mo : QString := []
  itemNO : QString := []
  dispatchQty : Int32 := 0
  socketNum : Int32 := 0

structure AdjSock where
  dispatchNo : QString := []
  dispatchPrior : QString := []
  productList : List ItemProduct := []

structure ItemMaterial where
  materialNO : QString := []
  materialName : QString := []
  batchNO : QString := []
  feedingQty : Int32 := 0
  feedingTime : QString := []

structure AdjMaterial where
  dispatchNo : QString := []
  cardID : QString := []
  materialList : List ItemMaterial := []

structure CardStopNo where
  dispatchNo : QString := []
  dispatchPrior : QString := []
  procCode : QString := []
  staCode : QString := []
  cardType : Int32 := 0
  cardDate : QString := []

structure InspectionProj where
  no : Int32 := 0
  result : Int32 := 0
  brand : QString := []

structure DevInspection where
  dispatchNo : QString := []
  dispatchPrior : QString := []
  procCode : QString := []
  staCode : QString := []
  cardID : QString := []
  cardDate : QString := []
  nDataList : List InspectionProj := []

structure ELEFeeCount where
  dispatchNo : QString := []
  dispatchPrior : QString := []
  procCode : QString := []
  staCode : QString := []
  cardID : QString := []
  cardDate : QString := []
  elecNum : Int32 := 0

end OtherSetInfo

open OtherSetInfo in
/-- A setting with its data; `FDAT_Data` holds them as XML. -/
inductive OtherSetInfo where
  | upgradeFile (file : UpgradeFile)
  | asyncOrder
  | adjOrder (info : List AdjOrder)
  | adjSock (sock : AdjSock)
  | adjMaterial (info : AdjMaterial)
  | cardStopNo (info : CardStopNo)
  | devInspection (info : DevInspection)
  | eleFeeCount (info : ELEFeeCount)

/-- `OtherSetInfo::SetType`. -/
def OtherSetInfo.dataType : OtherSetInfo → UInt8
  | upgradeFile _ => 0x00
  | asyncOrder => 0x01
  | adjOrder _ => 0x02
  | adjSock _ => 0x03
  | adjMaterial _ => 0x04
  | cardStopNo _ => 0x05
  | devInspection _ => 0x06
  | eleFeeCount _ => 0x07

/-- An `int` as an argument of `writeQUint8`. -/
def intToByte (v : Int32) : UInt8 := v.toUInt32.toUInt8

/-! ## The constructors -/

/-- `MESOtherRequest::MESOtherRequest`. -/
def MESOtherRequest (data : OtherSetInfo) : MESPack :=
  let pack := ({ cmdSerial := 0x15 } : MESPack).writeQUint8 data.dataType
  match data with
  | .upgradeFile file => (pack.writeQString file.fileName 30).writeQUint8 (intToByte file.result)
  | .asyncOrder => pack
  | .adjOrder info =>
    info.foldl
      (fun pack i => ((pack.writeQUint8 (intToByte i.serialNumber)).writeQString i.dispatchNo 20
        ).writeQString i.dispatchPrior 30)
      (pack.writeQUint8 (UInt8.ofNat info.length))
  | .adjSock sock =>
    sock.productList.foldl
      (fun pack i => (((pack.writeQString i.mo 20).writeQString i.itemNO 20
        ).writeQUint32 i.dispatchQty.toUInt32).writeQUint8 (intToByte i.socketNum))
      (((pack.writeQString sock.dispatchNo 20).writeQString sock.dispatchPrior 30
        ).writeQUint8 (UInt8.ofNat sock.productList.length))
  | .adjMaterial info =>
    info.materialList.foldl
      (fun pack i => ((((pack.writeQString i.batchNO 50).writeQString i.materialName 100
        ).writeQString i.batchNO 50).writeQUint32 i.feedingQty.toUInt32
        ).writeQDataTime (qstringToDateTime i.feedingTime))
      (((pack.writeQUint8 (UInt8.ofNat info.materialList.length)).writeQString info.dispatchNo 20
        ).writeQStringIC info.cardID)
  | .cardStopNo info =>
    (((((pack.writeQString info.dispatchNo 20).writeQString info.dispatchPrior 30
      ).writeQString info.procCode 20).writeQString info.staCode 20
      ).writeQUint8 (intToByte info.cardType)).writeQDataTime (qstringToDateTime info.cardDate)
  | .devInspection info =>
    info.nDataList.foldl
      (fun pack i => ((pack.writeQUint8 (intToByte i.no)).writeQUint8 (intToByte i.result)
        ).writeQString i.brand 30)
      (((((((pack.writeQString info.dispatchNo 20).writeQString info.dispatchPrior 30
        ).writeQString info.procCode 20).writeQString info.staCode 10
        ).writeQStringIC info.cardID).writeQDataTime (qstringToDateTime info.cardDate)
        ).writeQUint8 (UInt8.ofNat info.nDataList.length))
  | .eleFeeCount info =>
    (((((pack.writeQString info.dispatchNo 20).writeQString info.dispatchPrior 30
      ).writeQString info.procCode 20).writeQStringIC info.cardID
      ).writeQDataTime (qstringToDateTime info.cardDate)).writeQUint32 info.elecNum.toUInt32

/-- A value of a list that must not end before it. -/
def listAt (l : List Int32) (i : Nat) : Option UInt16 := l[i]?.map (fun v => v.toUInt32.toUInt16)

/-- The loop over the temperatures: it looks at the number of *pressures*. -/
def temperLoop (p : Producted) (pack : MESPack) : Option MESPack :=
  (List.range 8).foldlM
    (fun pack i =>
      if i < p.keepPress.length then (listAt p.temperValue i).map pack.writeQUint16
      else some (pack.writeQUint16 0))
    pack

/-- The loop over the hundred pressures. -/
def keepPressLoop (p : Producted) (pack : MESPack) : Option MESPack :=
  (List.range 100).foldlM
    (fun pack i =>
      if i < p.keepPress.length then (listAt p.keepPress i).map pack.writeQUint16
      else some (pack.writeQUint16 0))
    pack

/-- `MESProduceRequest::MESProduceRequest`; `none` where it indexes a list beyond its size. -/
def MESProduceRequest (p : Producted) : Option MESPack := do
  let pack := ({ cmdSerial := 0x10 } : MESPack).writeQUint8 0x00
  let pack := (((pack.writeQString p.dispatchNo 20).writeQString p.dispatchPrior 30
    ).writeQString p.procCode 20).writeQString p.staCode 10
  let pack := pack.writeQDataTime (qstringToDateTime p.startCycle)
  let pack ← temperLoop p pack
  let pack := (((pack.writeQUint32 p.machineCycle).writeQUint32 p.fillTime
    ).writeQUint32 p.cycleTime).writeQUint32 p.totalNum.toUInt32
  keepPressLoop p pack

/-! ## The layouts of the comments -/

open MESPack

/-- Values of a list in fields of two bytes, `n` of them; the list is filled up with zeros. -/
def wordFields (l : List Int32) (n : Nat) : QByteArray :=
  (List.range n).flatMap fun i => wordField (l.getD i 0).toUInt32.toUInt16

/-- The fields of a setting. -/
def OtherSetInfo.layout (data : OtherSetInfo) : QByteArray :=
  data.dataType ::
    match data with
    | .upgradeFile file => textField file.fileName 30 ++ [intToByte file.result]
    | .asyncOrder => []
    | .adjOrder info =>
      UInt8.ofNat info.length :: info.flatMap fun i =>
        [intToByte i.serialNumber] ++ textField i.dispatchNo 20 ++ textField i.dispatchPrior 30
    | .adjSock sock =>
      textField sock.dispatchNo 20 ++ textField sock.dispatchPrior 30 ++
        [UInt8.ofNat sock.productList.length] ++ sock.productList.flatMap fun i =>
          textField i.mo 20 ++ textField i.itemNO 20 ++ dwordField i.dispatchQty.toUInt32 ++
            [intToByte i.socketNum]
    | .adjMaterial info =>
      [UInt8.ofNat info.materialList.length] ++ textField info.dispatchNo 20 ++
        cardField info.cardID ++ info.materialList.flatMap fun i =>
          textField i.materialNO 50 ++ textField i.materialName 100 ++ textField i.batchNO 50 ++
            dwordField i.feedingQty.toUInt32 ++ dateField i.feedingTime
    | .cardStopNo info =>
      textField info.dispatchNo 20 ++ textField info.dispatchPrior 30 ++
        textField info.procCode 20 ++ textField info.staCode 10 ++ [intToByte info.cardType] ++
        dateField info.cardDate
    | .devInspection info =>
      textField info.dispatchNo 20 ++ textField info.dispatchPrior 30 ++
        textField info.procCode 20 ++ textField info.staCode 10 ++ cardField info.cardID ++
        dateField info.cardDate ++ [UInt8.ofNat info.nDataList.length] ++
        info.nDataList.flatMap fun i =>
          [intToByte i.no] ++ [intToByte i.result] ++ textField i.brand 30
    | .eleFeeCount info =>
      textField info.dispatchNo 20 ++ textField info.dispatchPrior 30 ++
        textField info.procCode 20 ++ textField info.staCode 10 ++ cardField info.cardID ++
        dateField info.cardDate ++ dwordField info.elecNum.toUInt32

/-- The fields of a mould record: eight temperatures and a hundred pressures. -/
def Producted.layout (p : Producted) : QByteArray :=
  [0x00] ++ textField p.dispatchNo 20 ++ textField p.dispatchPrior 30 ++ textField p.procCode 20 ++
    textField p.staCode 10 ++ dateField p.endCycle ++ wordFields p.temperValue 8 ++
    dwordField p.machineCycle ++ dwordField p.fillTime ++ dwordField p.cycleTime ++
    dwordField p.totalNum.toUInt32 ++ wordFields p.keepPress 100 ++ dateField p.startCycle

/-! ## Texts that fit -/

/-- A setting or a mould record. -/
inductive Report where
  | other (data : OtherSetInfo)
  | produce (p : Producted)

/-- The body that is built, if that comes to an end. -/
def Report.body : Report → Option QByteArray
  | other data => some (MESOtherRequest data).body
  | produce p => (MESProduceRequest p).map MESPack.body

def Report.layout : Report → QByteArray
  | other data => data.layout
  | produce p => p.layout

/-- The texts, with the widths of their fields. -/
def Report.texts : Report → List (QString × Nat)
  | other (.upgradeFile file) => [(file.fileName, 30)]
  | other .asyncOrder => []
  | other (.adjOrder info) => info.flatMap fun i => [(i.dispatchNo, 20), (i.dispatchPrior, 30)]
  | other (.adjSock sock) =>
    [(sock.dispatchNo, 20), (sock.dispatchPrior, 30)] ++
      sock.productList.flatMap fun i => [(i.mo, 20), (i.itemNO, 20)]
  | other (.adjMaterial info) =>
    [(info.dispatchNo, 20)] ++ info.materialList.flatMap fun i =>
      [(i.materialNO, 50), (i.materialName, 100), (i.batchNO, 50)]
  | other (.cardStopNo info) =>
    [(info.dispatchNo, 20), (info.dispatchPrior, 30), (info.procCode, 20), (info.staCode, 10)]
  | other (.devInspection info) =>
    [(info.dispatchNo, 20), (info.dispatchPrior, 30), (info.procCode, 20), (info.staCode, 10)] ++
      info.nDataList.map fun i => (i.brand, 30)
  | other (.eleFeeCount info) =>
    [(info.dispatchNo, 20), (info.dispatchPrior, 30), (info.procCode, 20), (info.staCode, 10)]
  | produce p =>
    [(p.dispatchNo, 20), (p.dispatchPrior, 30), (p.procCode, 20), (p.staCode, 10)]

/-- All texts fit in their fields. -/
def Report.Fits (u : Report) : Prop := ∀ t ∈ u.texts, FitsIn t.1 t.2

instance (u : Report) : Decidable u.Fits := inferInstanceAs (Decidable (∀ t ∈ u.texts, _))

/-- Every character of the text is a single byte. -/
def Single (s : QString) : Prop := s.size = s.length

instance (s : QString) : Decidable (Single s) := inferInstanceAs (Decidable (_ = _))

/-- When the body is the one of the comments. -/
def Report.Exact : Report → Prop
  | other (.adjMaterial info) =>
    Single info.dispatchNo ∧ ∀ i ∈ info.materialList,
      i.materialNO = i.batchNO ∧ Single i.materialName ∧ Single i.batchNO
  | other (.cardStopNo _) => False
  | other (.eleFeeCount info) =>
    -- a text that is ten bytes too long makes up for the station, if nothing stands behind it
    info.staCode = [] ∧
      ((info.dispatchNo.excess = 10 ∧ info.dispatchPrior = [] ∧ info.procCode = []) ∨
        (Single info.dispatchNo ∧ info.dispatchPrior.excess = 10 ∧ info.procCode = []) ∨
        (Single info.dispatchNo ∧ Single info.dispatchPrior ∧ info.procCode.excess = 10))
  | produce _ => False
  | u => ∀ t ∈ u.texts, Single t.1

/-! ## One field -/

/-- A field as it is written and as it should be: bytes, or a text. -/
inductive Cell where
  | bytes (a : QByteArray)
  | text (written : QString) (m : Nat) (s : QString) (n : Nat)

namespace Cell

/-- A text that is written where it belongs. -/
def asc (s : QString) (n : Nat) : Cell := text s n s n

def pair : Cell → QByteArray × QByteArray
  | bytes a => (a, a)
  | text written m s n => (qstringField written m, textField s n)

/-- The texts fit, and the field is not narrower than it should be. -/
def Fits : Cell → Prop
  | bytes _ => True
  | text written m s n => n ≤ m ∧ FitsIn written m ∧ FitsIn s n

/-- The right text, with the right width. -/
def Exact : Cell → Prop
  | bytes _ => True
  | text written m s n => m = n ∧ written = s ∧ Single written

end Cell

theorem length_add_excess {s : QString} {n : Nat} (h : FitsIn s n) :
    (qstringField s n).length = n + s.excess := by
  have hsize := QString.size_le_length (s := s)
  have hfits := h.1
  rw [length_qstringField, QString.excess]
  omega

/-- The bytes that are too many stand behind the field. -/
theorem qstringField_eq_append {s : QString} {n : Nat} (h : FitsIn s n) :
    qstringField s n = textField s n ++ List.replicate s.excess 0 := by
  have hsize := QString.size_le_length (s := s)
  have hfits := h.1
  rw [qstringField_eq, textField, List.append_assoc, List.replicate_append_replicate, QString.excess]
  congr 2
  omega

theorem single_iff {s : QString} : Single s ↔ s.excess = 0 := by
  have hsize := QString.size_le_length (s := s)
  unfold Single QString.excess
  omega

/-- A text is what stands before the zeros of its field. -/
theorem toQString_textField {s : QString} {n : Nat} (h : FitsIn s n) :
    QByteArray.toQString (textField s n) = s := by
  rw [textField, QByteArray.toQString_append_zeros, QByteArray.toQString_of_notMem h.2]

theorem Cell.covers_pair {c : Cell} (h : c.Fits) : c.pair.2.length ≤ c.pair.1.length := by
  cases c with
  | bytes a => exact Nat.le_refl _
  | text written m s n =>
    obtain ⟨hle, hw, hs⟩ := h
    show (textField s n).length ≤ (qstringField written m).length
    rw [hs.length_textField, length_add_excess hw]
    omega

theorem Cell.pair_eq_iff {c : Cell} (h : c.Fits) : c.pair.1 = c.pair.2 ↔ c.Exact := by
  cases c with
  | bytes a => exact iff_of_true rfl trivial
  | text written m s n =>
    obtain ⟨hle, hw, hs⟩ := h
    show qstringField written m = textField s n ↔ m = n ∧ written = s ∧ Single written
    rw [qstringField_eq_append hw, single_iff]
    constructor
    · intro heq
      have hlen := congrArg List.length heq
      rw [List.length_append, hw.length_textField, hs.length_textField, List.length_replicate] at hlen
      have htext := congrArg QByteArray.toQString heq
      rw [QByteArray.toQString_append_zeros, toQString_textField hw, toQString_textField hs] at htext
      exact ⟨by omega, htext, by omega⟩
    · rintro ⟨rfl, rfl, hexcess⟩
      rw [hexcess, List.replicate_zero, List.append_nil]

/-! ## Settings -/

/-- The fields of a setting, one after the other. The electricity charge has too few of them and is
not listed. -/
def OtherSetInfo.cells (data : OtherSetInfo) : List Cell :=
  .bytes [data.dataType] ::
    match data with
    | .upgradeFile file => [.asc file.fileName 30, .bytes [intToByte file.result]]
    | .asyncOrder => []
    | .adjOrder info =>
      .bytes [UInt8.ofNat info.length] :: info.flatMap fun i =>
        [.bytes [intToByte i.serialNumber], .asc i.dispatchNo 20, .asc i.dispatchPrior 30]
    | .adjSock sock =>
      [.asc sock.dispatchNo 20, .asc sock.dispatchPrior 30,
        .bytes [UInt8.ofNat sock.productList.length]] ++ sock.productList.flatMap fun i =>
          [.asc i.mo 20, .asc i.itemNO 20, .bytes (dwordField i.dispatchQty.toUInt32),
            .bytes [intToByte i.socketNum]]
    | .adjMaterial info =>
      [.bytes [UInt8.ofNat info.materialList.length], .asc info.dispatchNo 20,
        .bytes (cardField info.cardID)] ++ info.materialList.flatMap fun i =>
          [.text i.batchNO 50 i.materialNO 50, .asc i.materialName 100, .asc i.batchNO 50,
            .bytes (dwordField i.feedingQty.toUInt32), .bytes (dateField i.feedingTime)]
    | .cardStopNo info =>
      [.asc info.dispatchNo 20, .asc info.dispatchPrior 30, .asc info.procCode 20,
        .text info.staCode 20 info.staCode 10, .bytes [intToByte info.cardType],
        .bytes (dateField info.cardDate)]
    | .devInspection info =>
      [.asc info.dispatchNo 20, .asc info.dispatchPrior 30, .asc info.procCode 20,
        .asc info.staCode 10, .bytes (cardField info.cardID), .bytes (dateField info.cardDate),
        .bytes [UInt8.ofNat info.nDataList.length]] ++ info.nDataList.flatMap fun i =>
          [.bytes [intToByte i.no], .bytes [intToByte i.result], .asc i.brand 30]
    | .eleFeeCount _ => []

/-- Writing in a loop appends what each round writes. -/
theorem body_foldl {β : Type} {f : MESPack → β → MESPack} {g : β → QByteArray}
    (h : ∀ p x, (f p x).body = p.body ++ g x) (l : List β) (p : MESPack) :
    (l.foldl f p).body = p.body ++ l.flatMap g := by
  induction l generalizing p with
  | nil => simp
  | cons x l ih => rw [List.foldl_cons, ih, h, List.flatMap_cons, List.append_assoc]

/-- The data of a setting other than the electricity charge. -/
def OtherSetInfo.NoCharge : OtherSetInfo → Prop
  | eleFeeCount _ => False
  | _ => True

/-- The bytes of the cells, as they are written and as they should be. -/
def writtenCells (l : List Cell) : QByteArray := l.flatMap fun c => c.pair.1
def documentedCells (l : List Cell) : QByteArray := l.flatMap fun c => c.pair.2

section Cells

attribute [local simp] writtenCells documentedCells Cell.pair Cell.asc writeQUint8 writeQUint32
  writeQString writeQStringIC writeQDataTime dateField List.flatMap_assoc OtherSetInfo.dataType

theorem body_eq_cells {data : OtherSetInfo} (h : data.NoCharge) :
    (MESOtherRequest data).body = writtenCells data.cells := by
  cases data with
  | upgradeFile file => simp [MESOtherRequest, OtherSetInfo.cells]
  | asyncOrder => rfl
  | adjOrder info =>
    unfold MESOtherRequest
    simp only
    rw [body_foldl (g := fun i => writtenCells [.bytes [intToByte i.serialNumber],
      .asc i.dispatchNo 20, .asc i.dispatchPrior 30]) (by intro p i; simp)]
    simp [OtherSetInfo.cells]
  | adjSock sock =>
    unfold MESOtherRequest
    simp only
    rw [body_foldl (g := fun i => writtenCells [.asc i.mo 20, .asc i.itemNO 20,
      .bytes (dwordField i.dispatchQty.toUInt32), .bytes [intToByte i.socketNum]])
      (by intro p i; simp)]
    simp [OtherSetInfo.cells]
  | adjMaterial info =>
    unfold MESOtherRequest
    simp only
    rw [body_foldl (g := fun i => writtenCells [.text i.batchNO 50 i.materialNO 50,
      .asc i.materialName 100, .asc i.batchNO 50, .bytes (dwordField i.feedingQty.toUInt32),
      .bytes (dateField i.feedingTime)]) (by intro p i; simp)]
    simp [OtherSetInfo.cells]
  | cardStopNo info => simp [MESOtherRequest, OtherSetInfo.cells]
  | devInspection info =>
    unfold MESOtherRequest
    simp only
    rw [body_foldl (g := fun i => writtenCells [.bytes [intToByte i.no],
      .bytes [intToByte i.result], .asc i.brand 30]) (by intro p i; simp)]
    simp [OtherSetInfo.cells]
  | eleFeeCount info => exact h.elim

theorem layout_eq_cells {data : OtherSetInfo} (h : data.NoCharge) :
    data.layout = documentedCells data.cells := by
  cases data with
  | eleFeeCount info => exact h.elim
  | _ => simp [OtherSetInfo.layout, OtherSetInfo.cells]

end Cells

namespace Cell

variable {s written : QString} {m n : Nat} {a : QByteArray}

theorem fits_bytes : (bytes a).Fits ↔ True := Iff.rfl
theorem fits_asc : (asc s n).Fits ↔ FitsIn s n := by simp [asc, Fits]
theorem fits_text : (text written m s n).Fits ↔ n ≤ m ∧ FitsIn written m ∧ FitsIn s n := Iff.rfl
theorem exact_bytes : (bytes a).Exact ↔ True := Iff.rfl
theorem exact_asc : (asc s n).Exact ↔ Single s := by simp [asc, Exact]
theorem exact_text : (text written m s n).Exact ↔ m = n ∧ written = s ∧ Single written := Iff.rfl

end Cell

/-- The cells fit when the texts do. -/
theorem fits_cells {data : OtherSetInfo} (h : (Report.other data).Fits) :
    ∀ c ∈ data.cells, c.Fits := by
  unfold Report.Fits at h
  cases data <;>
    simp only [OtherSetInfo.cells, Report.texts, List.forall_mem_cons, List.forall_mem_append,
      List.forall_mem_flatMap, List.forall_mem_map, Cell.fits_bytes, Cell.fits_asc,
      Cell.fits_text] at h ⊢
  case cardStopNo info =>
    -- what fits in ten bytes fits in twenty
    have hsta : FitsIn info.staCode 20 := ⟨Nat.le_trans h.2.2.2.1.1 (by decide), h.2.2.2.1.2⟩
    grind
  all_goals grind

theorem exact_cells_iff {data : OtherSetInfo} (h : data.NoCharge) :
    (∀ c ∈ data.cells, c.Exact) ↔ (Report.other data).Exact := by
  cases data <;>
    simp only [OtherSetInfo.cells, Report.Exact, Report.texts, List.forall_mem_cons,
      List.forall_mem_append, List.forall_mem_flatMap, List.forall_mem_map, Cell.exact_bytes,
      Cell.exact_asc, Cell.exact_text]
  case eleFeeCount info => exact h.elim
  all_goals grind

/-- A setting other than the electricity charge. -/
theorem other_body_iff {data : OtherSetInfo} (h : (Report.other data).Fits) (hno : data.NoCharge) :
    (MESOtherRequest data).body = data.layout ↔ (Report.other data).Exact := by
  have hcells := fits_cells h
  have hcovers : Pieces.Covers (data.cells.map Cell.pair) := by
    intro q hq
    obtain ⟨c, hc, rfl⟩ := List.mem_map.mp hq
    exact Cell.covers_pair (hcells c hc)
  have hleft : writtenCells data.cells = Pieces.left (data.cells.map Cell.pair) := by
    rw [writtenCells, Pieces.left, List.flatMap_map]
  have hright : documentedCells data.cells = Pieces.right (data.cells.map Cell.pair) := by
    rw [documentedCells, Pieces.right, List.flatMap_map]
  rw [body_eq_cells hno, layout_eq_cells hno, hleft, hright, Pieces.left_eq_right_iff hcovers,
    List.forall_mem_map, ← exact_cells_iff hno]
  exact forall₂_congr fun c hc => Cell.pair_eq_iff (hcells c hc)

/-! ## Fields that are shifted -/

/-- A text in the right place, or behind zeros that belong to a field before it: then it must be
empty, and the zeros are handed on. -/
theorem carry_iff {t : QString} {n : Nat} {r r' : QByteArray} (h : FitsIn t n) (e : Nat) :
    List.replicate e 0 ++ (qstringField t n ++ r') = textField t n ++ r ↔
      if e = 0 then List.replicate t.excess 0 ++ r' = r else t = [] ∧ List.replicate e 0 ++ r' = r := by
  split
  · next he =>
    rw [he, List.replicate_zero, List.nil_append, qstringField_eq_append h, List.append_assoc,
      List.append_cancel_left_eq]
  · next he =>
    cases t with
    | nil =>
      have hswap : List.replicate e 0 ++ (qstringField [] n ++ r') =
          textField [] n ++ (List.replicate e 0 ++ r') := by
        rw [qstringField_eq, textField, List.nil_append, List.nil_append, ← List.append_assoc,
          ← List.append_assoc, List.replicate_append_replicate, List.replicate_append_replicate,
          Nat.add_comm]
        rfl
      rw [hswap, List.append_cancel_left_eq]
      exact (and_iff_right rfl).symm
    | cons b t =>
      refine iff_of_false ?_ (fun hand => List.cons_ne_nil b t hand.1)
      intro heq
      obtain ⟨k, rfl⟩ : ∃ k, e = k + 1 := ⟨e - 1, by omega⟩
      have hhead := congrArg List.head? heq
      rw [List.replicate_succ, textField, List.cons_append, List.cons_append, List.cons_append,
        List.head?_cons, List.head?_cons, Option.some.injEq] at hhead
      exact h.2 (hhead ▸ List.mem_cons_self)

/-- The zeros that are handed on may not be the ones that came. -/
theorem carry {t : QString} {n e : Nat} {r r' : QByteArray} (h : FitsIn t n)
    (heq : List.replicate e 0 ++ (qstringField t n ++ r') = textField t n ++ r) :
    ∃ e', List.replicate e' 0 ++ r' = r := by
  have hiff := (carry_iff h e).mp heq
  split at hiff
  · exact ⟨_, hiff⟩
  · exact ⟨_, hiff.2⟩

/-- Zeros in the place of a text. -/
theorem replicate_eq_textField_iff {t : QString} {n e : Nat} (h : FitsIn t n) :
    List.replicate e 0 = textField t n ↔ t = [] ∧ e = n := by
  constructor
  · intro heq
    have hlen := congrArg List.length heq
    rw [List.length_replicate, h.length_textField] at hlen
    have htext := congrArg QByteArray.toQString heq
    have hzeros := QByteArray.toQString_append_zeros [] e
    rw [List.nil_append] at hzeros
    rw [toQString_textField h, hzeros] at htext
    exact ⟨htext.symm, hlen⟩
  · rintro ⟨rfl, rfl⟩
    rfl

/-- The electricity charge has no station. -/
theorem charge_body_iff {info : OtherSetInfo.ELEFeeCount}
    (h : (Report.other (.eleFeeCount info)).Fits) :
    (MESOtherRequest (.eleFeeCount info)).body = (OtherSetInfo.eleFeeCount info).layout ↔
      (Report.other (.eleFeeCount info)).Exact := by
  simp only [Report.Fits, Report.texts, List.forall_mem_cons] at h
  obtain ⟨hno, hprior, hproc, hsta, -⟩ := h
  have hbody : (MESOtherRequest (.eleFeeCount info)).body = 0x07 :: (List.replicate 0 0 ++
      (qstringField info.dispatchNo 20 ++ (qstringField info.dispatchPrior 30 ++
        (qstringField info.procCode 20 ++ (cardField info.cardID ++ (dateField info.cardDate ++
          dwordField info.elecNum.toUInt32)))))) := by
    simp [MESOtherRequest, OtherSetInfo.dataType, writeQUint8, writeQUint32, writeQString,
      writeQStringIC, writeQDataTime, dateField]
  have hlayout : (OtherSetInfo.eleFeeCount info).layout = 0x07 ::
      (textField info.dispatchNo 20 ++ (textField info.dispatchPrior 30 ++
        (textField info.procCode 20 ++ (textField info.staCode 10 ++ (cardField info.cardID ++
          (dateField info.cardDate ++ dwordField info.elecNum.toUInt32)))))) := by
    simp [OtherSetInfo.layout, OtherSetInfo.dataType]
  have hend : ∀ e, List.replicate e 0 ++ (cardField info.cardID ++ (dateField info.cardDate ++
      dwordField info.elecNum.toUInt32)) = textField info.staCode 10 ++ (cardField info.cardID ++
        (dateField info.cardDate ++ dwordField info.elecNum.toUInt32)) ↔
      info.staCode = [] ∧ e = 10 := by
    intro e
    rw [List.append_cancel_right_eq]
    exact replicate_eq_textField_iff hsta
  have hnil : QString.excess [] = 0 := rfl
  rw [hbody, hlayout, List.cons_inj_right, carry_iff hno, if_pos rfl, carry_iff hprior,
    carry_iff hproc, carry_iff hproc, hend, hend, hend]
  simp only [Report.Exact, single_iff]
  -- which of the three texts is the one that is too long
  grind

/-! ## Mould records -/

/-- A loop whose rounds write two bytes each, if they come to an end. -/
theorem body_foldlM {f : MESPack → Nat → Option MESPack}
    (h : ∀ p i p', f p i = some p' → ∃ w, p'.body = p.body ++ wordField w) (l : List Nat)
    {p p' : MESPack} (hrun : l.foldlM f p = some p') :
    ∃ bytes : QByteArray, p'.body = p.body ++ bytes ∧ bytes.length = 2 * l.length := by
  induction l generalizing p with
  | nil =>
    obtain rfl := Option.some.inj hrun
    exact ⟨[], (List.append_nil _).symm, rfl⟩
  | cons i l ih =>
    rw [List.foldlM_cons] at hrun
    obtain ⟨q, hq, hrest⟩ := Option.bind_eq_some_iff.mp hrun
    obtain ⟨w, hw⟩ := h p i q hq
    obtain ⟨bytes, hbytes, hlen⟩ := ih hrest
    refine ⟨wordField w ++ bytes, ?_, ?_⟩
    · rw [hbytes, hw, List.append_assoc]
    · rw [List.length_append, hlen, List.length_cons]
      show 2 + 2 * l.length = _
      omega

/-- One round of the two loops of a mould record. -/
theorem round_body {p p' : MESPack} {size : Nat} {l : List Int32} {i : Nat}
    (h : (if i < size then (listAt l i).map p.writeQUint16 else some (p.writeQUint16 0)) = some p') :
    ∃ w, p'.body = p.body ++ wordField w := by
  split at h
  · obtain ⟨w, -, rfl⟩ := Option.map_eq_some_iff.mp h
    exact ⟨w, rfl⟩
  · obtain rfl := Option.some.inj h
    exact ⟨0, rfl⟩

/-- No date is written as six zeros: its month is not zero. -/
theorem qdateTimeField_ne_zeros (t : QDateTime) : qdateTimeField t ≠ List.replicate 6 0 := by
  cases t with
  | none => decide
  | some t =>
    intro heq
    have hmonth : UInt8.ofNat t.month = 0 := (List.cons.inj (List.cons.inj heq).2).1
    have hnat := congrArg UInt8.toNat hmonth
    have hvalid := t.valid.1
    rw [UInt8.toNat_ofNat'] at hnat
    have h0 : (0 : UInt8).toNat = 0 := rfl
    omega

theorem length_qdateTimeField (t : QDateTime) : (qdateTimeField t).length = 6 := by
  cases t <;> rfl

theorem length_wordFields (l : List Int32) (n : Nat) : (wordFields l n).length = 2 * n := by
  unfold wordFields
  rw [List.length_flatMap]
  have hlen : (fun i => (wordField (l.getD i 0).toUInt32.toUInt16).length) = fun _ => 2 := rfl
  rw [hlen]
  simp [Nat.mul_comm]

/-- A mould record is never what the comments say: the start of the cycle is missing at its end,
and what is missing cannot be made up for by a text that is too long. -/
theorem produce_body_ne {p : Producted} (h : (Report.produce p).Fits) :
    (Report.produce p).body ≠ some p.layout := by
  intro hbody
  simp only [Report.Fits, Report.texts, List.forall_mem_cons] at h
  obtain ⟨hno, hprior, hproc, hsta, -⟩ := h
  obtain ⟨pack, hpack, hlayout⟩ := Option.map_eq_some_iff.mp hbody
  simp only [MESProduceRequest, Option.bind_eq_bind] at hpack
  obtain ⟨pack₁, htemper, hkeep⟩ := Option.bind_eq_some_iff.mp hpack
  obtain ⟨words, hwords, hlen⟩ := body_foldlM (fun p i p' hp => round_body hp) _ htemper
  obtain ⟨points, hpoints, hlen'⟩ := body_foldlM (fun p i p' hp => round_body hp) _ hkeep
  rw [List.length_range] at hlen hlen'
  -- what follows the date at the front, in the body and in the layout
  have hbytes : pack.body = 0x00 :: (List.replicate 0 0 ++ (qstringField p.dispatchNo 20 ++
      (qstringField p.dispatchPrior 30 ++ (qstringField p.procCode 20 ++
        (qstringField p.staCode 10 ++ (dateField p.startCycle ++ (words ++
          (dwordField p.machineCycle ++ (dwordField p.fillTime ++ (dwordField p.cycleTime ++
            (dwordField p.totalNum.toUInt32 ++ points))))))))))) := by
    rw [hpoints]
    simp [hwords, writeQUint8, writeQUint32, writeQString, writeQDataTime, dateField]
  have hdoc : p.layout = 0x00 :: (textField p.dispatchNo 20 ++ (textField p.dispatchPrior 30 ++
      (textField p.procCode 20 ++ (textField p.staCode 10 ++ (dateField p.endCycle ++
        (wordFields p.temperValue 8 ++ (dwordField p.machineCycle ++ (dwordField p.fillTime ++
          (dwordField p.cycleTime ++ (dwordField p.totalNum.toUInt32 ++
            (wordFields p.keepPress 100 ++ dateField p.startCycle))))))))))) := by
    simp [Producted.layout]
  rw [hbytes, hdoc, List.cons_inj_right] at hlayout
  obtain ⟨e₁, h₁⟩ := carry hno hlayout
  obtain ⟨e₂, h₂⟩ := carry hprior h₁
  obtain ⟨e₃, h₃⟩ := carry hproc h₂
  obtain ⟨e, hrest⟩ := carry hsta h₃
  -- the zeros in front of the date are as many as the bytes that are missing
  have hdate : ∀ s, (dateField s).length = 6 := fun s => length_qdateTimeField _
  have hdword : ∀ v, (dwordField v).length = 4 := fun _ => rfl
  have hsizes := congrArg List.length hrest
  simp only [List.length_append, List.length_replicate, hdate, hdword, hlen, hlen',
    length_wordFields] at hsizes
  have he : e = 6 := by omega
  rw [he] at hrest
  have hzeros := List.append_inj_left hrest ((List.length_replicate).trans (hdate _).symm)
  exact qdateTimeField_ne_zeros _ hzeros.symm

/-! ## All messages -/

end ProgrammingPath.Mes
