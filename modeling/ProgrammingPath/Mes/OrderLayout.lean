import ProgrammingPath.Mes.Fields

/-!
# The layout of a dispatched order

`MESOrderRequest::decode` names the fields of the body in its comments, with their widths. `Layout`
is an order as it stands in such a body, `Layout.bytes` the body, and `decode_bytes` says that the
decoder gets back what the body was made of: the order, its products with their defect counts, and
the materials, which are there or not.
-/

namespace ProgrammingPath.Mes

open ProgrammingPath.Qt

/-- A text in a field of `n` bytes, filled up with zeros. -/
def textField (s : QString) (n : Nat) : QByteArray := s ++ List.replicate (n - s.length) 0

/-- The text can be told from the zeros behind it, and leaves room for them or fills the field. -/
def FitsIn (s : QString) (n : Nat) : Prop := s.length ≤ n ∧ (0 : UInt8) ∉ s

instance (s : QString) (n : Nat) : Decidable (FitsIn s n) := inferInstanceAs (Decidable (_ ∧ _))

theorem FitsIn.length_textField {s : QString} {n : Nat} (h : FitsIn s n) :
    (textField s n).length = n := by
  rw [textField, List.length_append, List.length_replicate]
  have := h.1
  omega

namespace Takes

variable {α β : Type} {r : Reader α} {f : α → Reader β} {bytes : QByteArray} {v : α} {w : β}

/-- The first of several fields. -/
theorem cons {l : List QByteArray} (h : Takes r bytes v) (h' : Takes (f v) l.flatten w) :
    Takes (r >>= f) (bytes :: l).flatten w := by
  rw [List.flatten_cons]
  exact bind h h'

/-- Read and go on with what was read. -/
theorem run_bind (h : Takes r bytes v) {p : MESPack} {rest : QByteArray} (hat : p.At (bytes ++ rest)) :
    (r >>= f) p = f v (p.skip bytes.length) := by
  show f (r p).1 (r p).2 = _
  rw [h p rest hat]

theorem run_get_bind (g : MESPack → Reader β) (p : MESPack) :
    ((get : Reader MESPack) >>= g) p = g p p := rfl

theorem qint32 (w : UInt32) : Takes Reader.qint32 (MESPack.dwordField w) w.toInt32 := by
  have h := bind (f := fun w => Pure.pure w.toInt32) (quint32 w) (pure w.toInt32)
  rwa [List.append_nil] at h

theorem text {s : QString} {n : Nat} (h : FitsIn s n) : Takes (Reader.qstring n) (textField s n) s := by
  have hread := qstring (h.length_textField)
  rwa [textField, QByteArray.toQString_append_zeros, QByteArray.toQString_of_notMem h.2] at hread

end Takes

namespace MESOrderRequest

/-! ## The body -/

/-- One product, `PCS_Data`. -/
structure Product where
  pcsMo : QString
  pcsItemNO : QString
  pcsItemName : QString
  pcsMouldNo : QString
  pcsDispatchQty : UInt32
  pcsSocketNum1 : UInt8
  pcsSocketNum2 : UInt8
  pcsFitMachineMin : UInt32
  pcsFitMachineMax : UInt32
  pcsBadQty : UInt32
  pcsBadData : List UInt32
  pcsAdjNum : UInt32

/-- One material. -/
structure MaterialItem where
  moMaterialNO : QString
  moMaterialName : QString

/-- An order as the server sends it. The numbers of products and of materials are those of the
lists; the section of the materials may be missing. -/
structure Layout where
  dataType : UInt16
  moDispatchNo : QString
  moDispatchPrior : QString
  moProcCode : QString
  moProcName : QString
  moStaCode : QString
  moStaName : QString
  moStandCycle : UInt32
  moTotalNum : UInt32
  moBadTypeNo : UInt8
  moBadReasonNum : UInt8
  products : List Product
  materials : Option (List MaterialItem)

open MESPack

def Product.bytes (p : Product) : QByteArray :=
  [textField p.pcsMo 20, textField p.pcsItemNO 20, textField p.pcsItemName 50,
    textField p.pcsMouldNo 20, dwordField p.pcsDispatchQty, [p.pcsSocketNum1], [p.pcsSocketNum2],
    dwordField p.pcsFitMachineMin, dwordField p.pcsFitMachineMax, dwordField p.pcsBadQty,
    p.pcsBadData.flatMap dwordField, dwordField p.pcsAdjNum].flatten

def MaterialItem.bytes (m : MaterialItem) : QByteArray :=
  [textField m.moMaterialNO 50, textField m.moMaterialName 100].flatten

namespace Layout

/-- The columns of the order. -/
def orderBytes (l : Layout) : QByteArray :=
  [textField l.moDispatchNo 20, textField l.moDispatchPrior 30, textField l.moProcCode 20,
    textField l.moProcName 50, textField l.moStaCode 10, textField l.moStaName 20,
    dwordField l.moStandCycle, dwordField l.moTotalNum, [UInt8.ofNat l.products.length],
    [l.moBadTypeNo], [l.moBadReasonNum]].flatten

def materialBytes (l : Layout) : QByteArray :=
  match l.materials with
  | none => []
  | some items => UInt8.ofNat items.length :: items.flatMap MaterialItem.bytes

def bytes (l : Layout) : QByteArray :=
  wordField l.dataType ++ (l.orderBytes ++ (l.products.flatMap Product.bytes ++ l.materialBytes))

/-! ## The order -/

def orderRow (l : Layout) : OrderRow where
  moDispatchNo := l.moDispatchNo
  moDispatchPrior := l.moDispatchPrior
  moProcCode := l.moProcCode
  moProcName := l.moProcName
  moStaCode := l.moStaCode
  moStaName := l.moStaName
  moStandCycle := l.moStandCycle.toInt32
  moTotalNum := l.moTotalNum.toInt32
  moMultiNum := byteToInt (UInt8.ofNat l.products.length)
  moBadTypeNo := byteToInt l.moBadTypeNo
  moBadReasonNum := byteToInt l.moBadReasonNum

/-- A product of this order; the good pieces are moulds times cavities, plus adjustment, minus
defects, in 32 bits. -/
def boy (l : Layout) (p : Product) : OrderBoy where
  pcsMo := p.pcsMo
  pcsItemNo := p.pcsItemNO
  pcsItemName := p.pcsItemName
  pcsMouldNo := p.pcsMouldNo
  pcsDispatchQty := p.pcsDispatchQty.toInt32
  pcsSocketNum1 := byteToInt p.pcsSocketNum1
  pcsSocketNum2 := byteToInt p.pcsSocketNum2
  pcsFitMachineMin := p.pcsFitMachineMin.toInt32
  pcsFitMachineMax := p.pcsFitMachineMax.toInt32
  pcsBadQty := p.pcsBadQty.toInt32
  pcsBadData := p.pcsBadData.map UInt32.toInt32
  pcsAdjNum := p.pcsAdjNum.toInt32
  totalOkNum := l.moTotalNum.toInt32 * byteToInt p.pcsSocketNum2 + p.pcsAdjNum.toInt32 -
    p.pcsBadQty.toInt32

def material (l : Layout) (m : MaterialItem) : Material where
  dispatchNo := l.moDispatchNo
  materialNo := m.moMaterialNO
  materialName := m.moMaterialName

/-- What the decoder should return. -/
def request (l : Layout) : MESOrderRequest where
  dataType := l.dataType
  order := { toOrderRow := l.orderRow, orderBoyList := l.products.map l.boy }
  materialList := (l.materials.getD []).map l.material

end Layout

/-- The texts of a product fit, and it has a count for each reason. -/
structure Product.Fits (p : Product) (reasons : UInt8) : Prop where
  pcsMo : FitsIn p.pcsMo 20
  pcsItemNO : FitsIn p.pcsItemNO 20
  pcsItemName : FitsIn p.pcsItemName 50
  pcsMouldNo : FitsIn p.pcsMouldNo 20
  pcsBadData : p.pcsBadData.length = reasons.toNat

structure MaterialItem.Fits (m : MaterialItem) : Prop where
  moMaterialNO : FitsIn m.moMaterialNO 50
  moMaterialName : FitsIn m.moMaterialName 100

/-- The order can be written down in this layout. The number of the order has no quote, since
`getBoy` puts it between quotes into its statement. -/
structure Layout.Fits (l : Layout) : Prop where
  moDispatchNo : FitsIn l.moDispatchNo 20
  moDispatchPrior : FitsIn l.moDispatchPrior 30
  moProcCode : FitsIn l.moProcCode 20
  moProcName : FitsIn l.moProcName 50
  moStaCode : FitsIn l.moStaCode 10
  moStaName : FitsIn l.moStaName 20
  noQuote : (0x27 : UInt8) ∉ l.moDispatchNo
  products : l.products.length ≤ 255
  product : ∀ p ∈ l.products, p.Fits l.moBadReasonNum
  materials : ∀ items ∈ l.materials, items.length ≤ 255 ∧ ∀ m ∈ items, m.Fits

/-! ## Reading it back -/

theorem toNatClampNeg_byteToInt (b : UInt8) : (byteToInt b).toNatClampNeg = b.toNat := by
  have hlt := b.toNat_lt
  exact Int32.toNatClampNeg_ofNat_of_lt (by omega)

theorem toNat_ofNat_of_le {n : Nat} (h : n ≤ 255) : (UInt8.ofNat n).toNat = n := by
  rw [UInt8.toNat_ofNat']
  omega

variable {l : Layout}

theorem takes_readOrder (h : l.Fits) : Takes readOrder l.orderBytes l.orderRow := by
  refine (Takes.text h.moDispatchNo).cons ?_
  refine (Takes.text h.moDispatchPrior).cons ?_
  refine (Takes.text h.moProcCode).cons ?_
  refine (Takes.text h.moProcName).cons ?_
  refine (Takes.text h.moStaCode).cons ?_
  refine (Takes.text h.moStaName).cons ?_
  refine (Takes.qint32 l.moStandCycle).cons ?_
  refine (Takes.qint32 l.moTotalNum).cons ?_
  refine (Takes.quint8 (UInt8.ofNat l.products.length)).cons ?_
  refine (Takes.quint8 l.moBadTypeNo).cons ?_
  refine (Takes.quint8 l.moBadReasonNum).cons ?_
  exact Takes.pure _

theorem takes_readBoy {p : Product} (h : p.Fits l.moBadReasonNum) :
    Takes (readBoy l.orderRow) p.bytes (l.boy p) := by
  have hdata : Takes (Reader.qint32.times l.orderRow.moBadReasonNum.toNatClampNeg)
      (p.pcsBadData.flatMap dwordField) (p.pcsBadData.map UInt32.toInt32) := by
    have hcount : l.orderRow.moBadReasonNum.toNatClampNeg = p.pcsBadData.length := by
      rw [h.pcsBadData]
      exact toNatClampNeg_byteToInt _
    rw [hcount]
    exact Takes.times fun w _ => Takes.qint32 w
  refine (Takes.text h.pcsMo).cons ?_
  refine (Takes.text h.pcsItemNO).cons ?_
  refine (Takes.text h.pcsItemName).cons ?_
  refine (Takes.text h.pcsMouldNo).cons ?_
  refine (Takes.qint32 p.pcsDispatchQty).cons ?_
  refine (Takes.quint8 p.pcsSocketNum1).cons ?_
  refine (Takes.quint8 p.pcsSocketNum2).cons ?_
  refine (Takes.qint32 p.pcsFitMachineMin).cons ?_
  refine (Takes.qint32 p.pcsFitMachineMax).cons ?_
  refine (Takes.qint32 p.pcsBadQty).cons ?_
  refine hdata.cons ?_
  refine (Takes.qint32 p.pcsAdjNum).cons ?_
  exact Takes.pure _

theorem takes_readMaterial {m : MaterialItem} (h : m.Fits) :
    Takes (readMaterial l.orderRow) m.bytes (l.material m) := by
  refine (Takes.text h.moMaterialNO).cons ?_
  refine (Takes.text h.moMaterialName).cons ?_
  exact Takes.pure _

theorem takes_boys (h : l.Fits) :
    Takes ((readBoy l.orderRow).times l.orderRow.moMultiNum.toNatClampNeg)
      (l.products.flatMap Product.bytes) (l.products.map l.boy) := by
  have hcount : l.orderRow.moMultiNum.toNatClampNeg = l.products.length := by
    show (byteToInt _).toNatClampNeg = _
    rw [toNatClampNeg_byteToInt, toNat_ofNat_of_le h.products]
  rw [hcount]
  exact Takes.times fun p hp => takes_readBoy (h.product p hp)

/-- The decoder returns the order that the body was made of. -/
theorem decode_bytes {db : DB} {pack : MESPack} (h : l.Fits) (hboys : db.boys l.moDispatchNo = [])
    (hcmd : pack.cmdSerial = 0xD0) (hbody : pack.body = l.bytes) (hpos : pack.atPoint = 0) :
    decode db pack = some l.request := by
  have hat := at_zero hpos
  rw [hbody, Layout.bytes] at hat
  have hend := hat.skip.skip.skip
  -- nothing is stored for this order, so `getBoy` adds nothing
  have hflat : ∀ boys : List OrderBoy,
      boys.flatMap (fun boy => db.boys l.orderRow.moDispatchNo ++ [boy]) = boys := by
    intro boys
    show boys.flatMap (fun boy => db.boys l.moDispatchNo ++ [boy]) = boys
    rw [hboys]
    simp
  unfold decode
  rw [if_neg (fun hne => hne hcmd)]
  dsimp only
  rw [(Takes.quint16 l.dataType).run_bind hat, (takes_readOrder h).run_bind hat.skip,
    (takes_boys h).run_bind hat.skip.skip, hflat, Takes.run_get_bind, hend.isReadEnd]
  congr 1
  unfold Layout.request
  cases hmat : l.materials with
  | none =>
    rw [Layout.materialBytes, hmat]
    rfl
  | some items =>
    obtain ⟨hcount, hfits⟩ := h.materials items hmat
    have hlist : Takes ((readMaterial l.orderRow).times (UInt8.ofNat items.length).toNat)
        (items.flatMap MaterialItem.bytes) (items.map l.material) := by
      rw [toNat_ofNat_of_le hcount]
      exact Takes.times fun m hm => takes_readMaterial (hfits m hm)
    have hbytes : l.materialBytes =
        [UInt8.ofNat items.length] ++ (items.flatMap MaterialItem.bytes ++ []) := by
      rw [Layout.materialBytes, hmat, List.append_nil]
      rfl
    rw [hbytes] at hend ⊢
    rw [if_neg (by simp), (Takes.quint8 _).run_bind hend, hlist.run_bind hend.skip]
    rfl

/-- An order with one product and one reason, and a material. -/
theorem decode_bytes_small :
    let l : Layout :=
      { dataType := 0, moDispatchNo := [0x41], moDispatchPrior := [0x42], moProcCode := [],
        moProcName := [], moStaCode := [0x43], moStaName := [], moStandCycle := 20000,
        moTotalNum := 3, moBadTypeNo := 0, moBadReasonNum := 1,
        products := [
          { pcsMo := [0x44], pcsItemNO := [0x45], pcsItemName := [], pcsMouldNo := [],
            pcsDispatchQty := 1000, pcsSocketNum1 := 4, pcsSocketNum2 := 2, pcsFitMachineMin := 0,
            pcsFitMachineMax := 0, pcsBadQty := 1, pcsBadData := [1], pcsAdjNum := 0 }],
        materials := some [{ moMaterialNO := [0x46], moMaterialName := [] }] }
    decode {} { cmdSerial := 0xD0, body := l.bytes } = some l.request := by
  intro l
  refine decode_bytes ⟨by decide, by decide, by decide, by decide, by decide, by decide, by decide,
    by decide, ?_, ?_⟩ rfl rfl rfl rfl
  · intro p hp
    obtain rfl := List.mem_singleton.mp hp
    exact ⟨by decide, by decide, by decide, by decide, rfl⟩
  · intro items hitems
    obtain rfl := Option.mem_some_iff.mp hitems
    refine ⟨by decide, fun m hm => ?_⟩
    obtain rfl := List.mem_singleton.mp hm
    exact ⟨by decide, by decide⟩

end MESOrderRequest

end ProgrammingPath.Mes
