import ProgrammingPath.Mes.Layouts
import ProgrammingPath.Mes.Shop
import ProgrammingPath.Qt.Number

/-!
# The upload of defects (`Action/mainqccheckpage.cpp`, `Action/fun_dialog/fun36tj.cpp`)

The QC page and the dialog of the machine adjustment (36) both store a `DefectiveInfo` for upload:
for each product of the main order its number and one count for each reason. The message built from
it announces how many products and how many reasons there are, and the receiver parses by that.

`consistent_iff` says when a record is what it announces. The page needs a table for each product,
with as many rows as the order has reasons; `matches_loading` is what that means for the
configuration. The dialog appends its entry only once, behind the loop over the products, so its
record is right for an order of one product only.
-/

namespace ProgrammingPath.Mes

open ProgrammingPath.Qt ProgrammingPath.Lib MESPack

/-! ## The record and its message -/

/-- `DefectiveInfo::ProductInfo`. -/
structure ProductInfo where
  itemNo : QString := []
  badData : List Int32 := []
  deriving DecidableEq, Repr

def ProductInfo.getBadQty (p : ProductInfo) : Int32 := p.badData.foldl (· + ·) 0

/-- `entity::DefectiveInfo`. -/
structure DefectiveInfo where
  dispatchNo : QString := []
  dispatchPrior : QString := []
  procCode : QString := []
  staCode : QString := []
  cardId : QString := []
  cardDate : QString := []
  status : Int32 := 0
  multiNum : Int32 := 0
  badReasonNum : Int32 := 0
  fdatBillType : Int32 := 0
  badDataList : List ProductInfo := []
  deriving DecidableEq, Repr

namespace MESDefectiveInfoRequest

/-- `MESDefectiveInfoRequest::toMESPack`, up to the loop over the products. -/
def header (data : DefectiveInfo) : MESPack :=
  let pack : MESPack := { cmdSerial := 0x13 }
  let pack := (((pack.writeQString data.dispatchNo 20).writeQString data.dispatchPrior 30
    ).writeQString data.procCode 20).writeQString data.staCode 10
  let pack := (pack.writeQStringIC data.cardId).writeQDataTime (qstringToDateTime data.cardDate)
  ((pack.writeQUint8 (intToByte data.status)).writeQUint8 (UInt8.ofNat data.badDataList.length)
    ).writeQUint8 (intToByte data.badReasonNum)

/-- One round of the loop. -/
def writeProduct (pack : MESPack) (p : ProductInfo) : MESPack :=
  p.badData.foldl (fun pack v => pack.writeQUint32 v.toUInt32)
    ((pack.writeQString p.itemNo 20).writeQUint32 p.getBadQty.toUInt32)

def toMESPack (data : DefectiveInfo) : MESPack := data.badDataList.foldl writeProduct (header data)

/-- What stands behind the header. -/
def productData (data : DefectiveInfo) : QByteArray :=
  (toMESPack data).body.drop (header data).body.length

/-- The length that the last two bytes of the header announce. -/
def announced (data : DefectiveInfo) : Nat :=
  (UInt8.ofNat data.badDataList.length).toNat * (24 + 4 * (intToByte data.badReasonNum).toNat)

end MESDefectiveInfoRequest

/-! ## The two saves -/

/-- The tables of a page, each with the product of the same index; a table without one fails. -/
def withBoys (order : Order) (tables : List MESTable) : Option (List (OrderBoy × MESTable)) :=
  if order.orderBoyList.length < tables.length then none
  else some (order.orderBoyList.zip tables)

/-- `MainQCCheckPage::on_btSave_clicked`, the record it stores: `card` is the card that was read,
`now` the time. -/
def Shop.qcDefectiveInfo (shop : Shop) (card now : QString) : Option DefectiveInfo := do
  let order := shop.mainOrderCache
  let rows ← withBoys order shop.mesTable
  return {
    dispatchNo := order.moDispatchNo
    dispatchPrior := order.moDispatchPrior
    procCode := order.moProcCode
    staCode := order.moStaCode
    cardId := card
    cardDate := now
    status := 0
    multiNum := Int32.ofNat shop.mesTable.length
    badReasonNum := order.moBadReasonNum
    fdatBillType := 0
    badDataList := rows.map fun row => { itemNo := row.1.pcsItemNo, badData := row.2.inputs } }

/-- `MESTableItem::Save`. -/
def MESTableItem.save (item : MESTableItem) : MESTableItem :=
  { item with value := item.value + item.inputValue, inputValue := 0 }

/-- `ADJMachine::AdjustData`. -/
structure AdjustData where
  itemNO : QString := []
  curChangeQty : Int32 := 0
  nullQty : Int32 := 0
  prodQty : Int32 := 0
  deriving DecidableEq, Repr

/-- `entity::ADJMachine`. -/
structure ADJMachine where
  dispatchNo : QString := []
  dispatchPrior : QString := []
  procCode : QString := []
  staCode : QString := []
  startCardId : QString := []
  startTime : QString := []
  endCardId : QString := []
  endTime : QString := []
  cardType : Int32 := 0
  multiNum : Int32 := 0
  adjstDataList : List AdjustData := []
  deriving DecidableEq, Repr

/-- The dialog of the machine adjustment: its table, with two rows before those of the reasons, the
card it was begun with and the reason chosen. -/
structure Fun36tj where
  mesTable : List MESTable := []
  bindText : QString := []
  funIndex : Int32 := 0
  cardType : Int32 := 0
  deriving DecidableEq, Repr

namespace Fun36tj

/-- `良品总数` and `空模总数`, the names of the first two rows. -/
def goodName : QString := [0xC1, 0xBC, 0xC6, 0xB7, 0xD7, 0xDC, 0xCA, 0xFD]
def emptyName : QString := [0xBF, 0xD5, 0xC4, 0xA3, 0xD7, 0xDC, 0xCA, 0xFD]

/-- `Fun36tj::Loading`; `none` where it fails for want of reasons. -/
def loading (badCfg : Int32 → List QString) (order : Order) : Option (List MESTable) :=
  let names := badCfg order.moBadTypeNo
  if names.length = 0 then none
  else
    some (order.orderBoyList.map fun boy =>
      let list := boy.adjDefList.split
      { name := goodName, value := boy.adjOKNum } ::
        { name := emptyName, value := boy.adjEmptyMoldNum } ::
          names.zipIdx.map fun nj =>
            { name := nj.1, value := (list[nj.2]?).elim 0 QString.toInt })

/-- What a save leaves. -/
structure Saved where
  adjInfo : ADJMachine
  info : DefectiveInfo
  mesTable : List MESTable
  deriving DecidableEq, Repr

/-- The first loop of the save: the pieces that came out well and the empty moulds. -/
def adjustData (row : OrderBoy × MESTable) : Option AdjustData := do
  let good ← row.2[0]?
  let empty ← row.2[1]?
  return {
    itemNO := row.1.pcsItemNo
    curChangeQty := good.inputValue
    nullQty := empty.inputValue
    prodQty := 0 }

/-- `Fun36tj::on_btSave_clicked`: `card` is the card that was read, `now` the time. `itemInfo` is
declared before the second loop and appended behind it. -/
def save (tj : Fun36tj) (order : Order) (card now : QString) : Option Saved :=
  if tj.mesTable.length = 0 then none
  else do
    let rows ← withBoys order tj.mesTable
    let adjstDataList ← rows.mapM adjustData
    let adjInfo : ADJMachine := {
      dispatchNo := order.moDispatchNo
      dispatchPrior := order.moDispatchPrior
      procCode := order.moProcCode
      staCode := order.moStaCode
      startCardId := tj.bindText
      startTime := now
      endCardId := card
      endTime := now
      cardType := tj.cardType
      multiNum := Int32.ofNat order.orderBoyList.length
      adjstDataList := adjstDataList }
    let itemInfo : ProductInfo := rows.foldl
      (fun itemInfo row =>
        { itemNo := row.1.pcsItemNo, badData := itemInfo.badData ++ row.2.inputs.drop 2 })
      {}
    let info : DefectiveInfo := {
      dispatchNo := order.moDispatchNo
      dispatchPrior := order.moDispatchPrior
      procCode := order.moProcCode
      staCode := order.moStaCode
      cardId := tj.bindText
      cardDate := now
      status := tj.funIndex
      multiNum := Int32.ofNat order.orderBoyList.length
      badReasonNum := order.moBadReasonNum
      fdatBillType := 0
      badDataList := [itemInfo] }
    return { adjInfo, info, mesTable := tj.mesTable.map (·.map MESTableItem.save) }

end Fun36tj

/-! ## What the records should be -/

/-- A record for an order: one entry for each product, in order, with its number and its inputs, as
many as the order has reasons, and a message that is as long as it announces. -/
structure DefectiveInfo.Consistent (info : DefectiveInfo) (order : Order)
    (inputs : List (List Int32)) : Prop where
  length : info.badDataList.length = order.orderBoyList.length
  entries : info.badDataList =
    List.zipWith (fun boy counts => { itemNo := boy.pcsItemNo, badData := counts })
      order.orderBoyList inputs
  reasons : ∀ p ∈ info.badDataList, (p.badData.length : Int) = order.moBadReasonNum.toInt
  size : ((MESDefectiveInfoRequest.productData info).length : Int) =
    order.orderBoyList.length * (24 + 4 * order.moBadReasonNum.toInt)
  announced : MESDefectiveInfoRequest.announced info =
    (MESDefectiveInfoRequest.productData info).length

/-- The text fills a field of this width, or less. -/
def Narrow (s : QString) (n : Nat) : Prop := s.length ≤ n ∧ Single s

instance (s : QString) (n : Nat) : Decidable (Narrow s n) := inferInstanceAs (Decidable (_ ∧ _))

/-- Tables that belong to an order: one for each product, and a row for each reason behind the
`extra` ones. The numbers of the products fit in their fields, and those of products and reasons
in a byte. -/
structure Matches (order : Order) (tables : List MESTable) (extra : Nat) : Prop where
  count : tables.length = order.orderBoyList.length
  rows : ∀ t ∈ tables, (t.length : Int) = extra + order.moBadReasonNum.toInt
  items : ∀ boy ∈ order.orderBoyList, Narrow boy.pcsItemNo 20
  bytes : order.orderBoyList ≠ [] →
    order.orderBoyList.length ≤ 255 ∧ order.moBadReasonNum.toInt ≤ 255

/-! ## The length of the message -/

theorem length_qstringField_eq_iff {s : QString} {n : Nat} :
    (qstringField s n).length = n ↔ Narrow s n := by
  have hsize := QString.size_le_length (s := s)
  rw [length_qstringField, Narrow, Single]
  omega

theorem le_length_qstringField (s : QString) (n : Nat) : n ≤ (qstringField s n).length := by
  have hsize := QString.size_le_length (s := s)
  rw [length_qstringField]
  omega

namespace MESDefectiveInfoRequest

/-- The bytes of one product. -/
def productField (p : ProductInfo) : QByteArray :=
  qstringField p.itemNo 20 ++ dwordField p.getBadQty.toUInt32 ++
    p.badData.flatMap fun v => dwordField v.toUInt32

theorem productData_eq (data : DefectiveInfo) :
    productData data = data.badDataList.flatMap productField := by
  have hproduct : ∀ (pack : MESPack) (p : ProductInfo),
      (writeProduct pack p).body = pack.body ++ productField p := by
    intro pack p
    rw [writeProduct, body_foldl (g := fun v : Int32 => dwordField v.toUInt32) (fun _ _ => rfl)]
    simp [productField, writeQString, writeQUint32]
  rw [productData, toMESPack, body_foldl (g := productField) hproduct, List.drop_left]

theorem length_productField (p : ProductInfo) :
    (productField p).length = (qstringField p.itemNo 20).length + 4 + 4 * p.badData.length := by
  have hcounts : (p.badData.flatMap fun v => dwordField v.toUInt32).length =
      4 * p.badData.length := by
    rw [List.length_flatMap]
    simp [dwordField, Nat.mul_comm]
  rw [productField, List.length_append, List.length_append, hcounts]
  rfl

/-- Fields that are too wide make the message too long. -/
theorem length_flatMap_productField {l : List ProductInfo} {k : Nat}
    (h : ∀ p ∈ l, p.badData.length = k) :
    l.length * (24 + 4 * k) ≤ (l.flatMap productField).length ∧
      ((l.flatMap productField).length = l.length * (24 + 4 * k) ↔
        ∀ p ∈ l, Narrow p.itemNo 20) := by
  induction l with
  | nil => simp
  | cons p l ih =>
    obtain ⟨hp, hl⟩ := List.forall_mem_cons.mp h
    obtain ⟨hle, hiff⟩ := ih hl
    have hfield := le_length_qstringField p.itemNo 20
    have hlen := length_productField p
    rw [hp] at hlen
    rw [List.flatMap_cons, List.length_append, List.length_cons, Nat.succ_mul,
      List.forall_mem_cons, ← hiff, ← length_qstringField_eq_iff]
    omega

/-- Numbers that are cut off at a byte announce less. -/
theorem wrapped_eq_iff {n k : Nat} (hn : 0 < n) :
    n % 256 * (24 + 4 * (k % 256)) = n * (24 + 4 * k) ↔ n ≤ 255 ∧ k ≤ 255 := by
  constructor
  · intro heq
    have hn' := Nat.mod_le n 256
    have hk' := Nat.mod_le k 256
    refine ⟨?_, ?_⟩
    · by_contra hbig
      have hlt : n % 256 < n := by omega
      have hless : n % 256 * (24 + 4 * (k % 256)) < n * (24 + 4 * k) :=
        Nat.mul_lt_mul_of_lt_of_le hlt (by omega) (by omega)
      omega
    · by_contra hbig
      have hlt : 24 + 4 * (k % 256) < 24 + 4 * k := by omega
      have hless : n % 256 * (24 + 4 * (k % 256)) < n * (24 + 4 * k) :=
        Nat.mul_lt_mul_of_le_of_lt hn' hlt hn
      omega
  · rintro ⟨hn, hk⟩
    rw [Nat.mod_eq_of_lt (by omega), Nat.mod_eq_of_lt (by omega)]

theorem toNat_intToByte {v : Int32} {k : Nat} (h : v.toInt = k) :
    (intToByte v).toNat = k % 256 := by
  have hpos : (0 : Int32) ≤ v := by
    rw [Int32.le_iff_toInt_le, h]
    exact Int.natCast_nonneg k
  have hclamp : v.toNatClampNeg = k := by
    rw [← Int32.toNat_toInt, h, Int.toNat_natCast]
  rw [intToByte, UInt32.toNat_toUInt8, Int32.toNat_toUInt32_of_le hpos, hclamp]

/-- When the message of a record with the right number of counts is what it announces. -/
theorem size_announced_iff {data : DefectiveInfo} {m : Int} (hm : data.badReasonNum.toInt = m)
    (h : ∀ p ∈ data.badDataList, (p.badData.length : Int) = m) :
    (((productData data).length : Int) = data.badDataList.length * (24 + 4 * m) ∧
        announced data = (productData data).length) ↔
      (∀ p ∈ data.badDataList, Narrow p.itemNo 20) ∧
        (data.badDataList ≠ [] → data.badDataList.length ≤ 255 ∧ m ≤ 255) := by
  rw [productData_eq, announced]
  by_cases hnil : data.badDataList = []
  · simp [hnil]
  · obtain ⟨p, hp⟩ := List.exists_mem_of_ne_nil _ hnil
    obtain ⟨k, rfl⟩ : ∃ k : Nat, m = k := ⟨p.badData.length, (h p hp).symm⟩
    have hpos := List.length_pos_of_ne_nil hnil
    obtain ⟨-, hiff⟩ := length_flatMap_productField (k := k) fun p hp => by
      have := h p hp
      omega
    have hsize : (((data.badDataList.flatMap productField).length : Int) =
        data.badDataList.length * (24 + 4 * (k : Int))) ↔
        (data.badDataList.flatMap productField).length =
          data.badDataList.length * (24 + 4 * k) := by
      rw [← Int.natCast_inj]
      push_cast
      rfl
    rw [toNat_intToByte hm, UInt8.toNat_ofNat', hsize, hiff]
    constructor
    · rintro ⟨hnarrow, heq⟩
      rw [hiff.mpr hnarrow, wrapped_eq_iff hpos] at heq
      exact ⟨hnarrow, fun _ => ⟨heq.1, by omega⟩⟩
    · rintro ⟨hnarrow, hbytes⟩
      obtain ⟨hn, hk⟩ := hbytes hnil
      refine ⟨hnarrow, ?_⟩
      rw [hiff.mpr hnarrow, wrapped_eq_iff hpos]
      exact ⟨hn, by omega⟩

end MESDefectiveInfoRequest

/-! ## Entries and tables -/

section Entries

open MESDefectiveInfoRequest

variable {info : DefectiveInfo} {order : Order} {tables : List MESTable} {extra : Nat}

theorem withBoys_eq_some {rows : List (OrderBoy × MESTable)} :
    withBoys order tables = some rows ↔
      tables.length ≤ order.orderBoyList.length ∧ rows = order.orderBoyList.zip tables := by
  rw [withBoys]
  split
  · next hlt => simp [Nat.not_le_of_gt hlt]
  · next hle => simp [Nat.not_lt.mp hle, eq_comm]

/-- Entries made of products and counts. -/
theorem map_badData_entries {boys : List OrderBoy} {counts : List (List Int32)}
    (h : counts.length ≤ boys.length) :
    (List.zipWith (fun boy counts => ProductInfo.mk boy.pcsItemNo counts) boys counts).map
      ProductInfo.badData = counts := by
  rw [← List.map_uncurry_zip_eq_zipWith, List.map_map]
  exact List.map_snd_zip h

theorem map_itemNo_entries {boys : List OrderBoy} {counts : List (List Int32)}
    (h : boys.length ≤ counts.length) :
    (List.zipWith (fun boy counts => ProductInfo.mk boy.pcsItemNo counts) boys counts).map
      ProductInfo.itemNo = boys.map OrderBoy.pcsItemNo := by
  rw [← List.map_uncurry_zip_eq_zipWith, List.map_map]
  show List.map (OrderBoy.pcsItemNo ∘ Prod.fst) _ = _
  rw [← List.map_map, List.map_fst_zip h]

/-- A record that has the products with their inputs is right if the tables belong to the order. -/
theorem consistent_iff_matches (hreason : info.badReasonNum = order.moBadReasonNum)
    (hentries : info.badDataList =
      List.zipWith (fun boy counts => { itemNo := boy.pcsItemNo, badData := counts })
        order.orderBoyList (tables.map fun t => t.inputs.drop extra))
    (hle : tables.length ≤ order.orderBoyList.length) (hextra : ∀ t ∈ tables, extra ≤ t.length) :
    info.Consistent order (tables.map fun t => t.inputs.drop extra) ↔
      Matches order tables extra := by
  -- the counts are those of the tables, the numbers those of the products
  have hcounts : info.badDataList.map ProductInfo.badData =
      tables.map fun t => t.inputs.drop extra := by
    rw [hentries]
    exact map_badData_entries (by simpa using hle)
  have hlen : info.badDataList.length = tables.length := by
    have hlen := congrArg List.length hcounts
    rwa [List.length_map, List.length_map] at hlen
  have hreasons : (∀ p ∈ info.badDataList,
      (p.badData.length : Int) = order.moBadReasonNum.toInt) ↔
        ∀ t ∈ tables, (t.length : Int) = extra + order.moBadReasonNum.toInt := by
    rw [← List.forall_mem_map (f := ProductInfo.badData)
      (P := fun c => (c.length : Int) = order.moBadReasonNum.toInt), hcounts, List.forall_mem_map]
    refine forall₂_congr fun t ht => ?_
    have htlen := hextra t ht
    rw [List.length_drop, MESTable.inputs, List.length_map]
    omega
  have hitems : tables.length = order.orderBoyList.length →
      ((∀ p ∈ info.badDataList, Narrow p.itemNo 20) ↔
        ∀ boy ∈ order.orderBoyList, Narrow boy.pcsItemNo 20) := by
    intro heq
    have hnames : info.badDataList.map ProductInfo.itemNo =
        order.orderBoyList.map OrderBoy.pcsItemNo := by
      rw [hentries]
      exact map_itemNo_entries (by simpa using heq.ge)
    rw [← List.forall_mem_map (f := ProductInfo.itemNo) (P := fun s => Narrow s 20), hnames,
      List.forall_mem_map]
  constructor
  · intro h
    have heq : tables.length = order.orderBoyList.length := hlen.symm.trans h.length
    have hsize := (size_announced_iff (congrArg Int32.toInt hreason) h.reasons).mp
      ⟨by rw [h.length]; exact h.size, h.announced⟩
    refine ⟨heq, hreasons.mp h.reasons, (hitems heq).mp hsize.1, fun hne => ?_⟩
    have hbytes := hsize.2 (by
      rw [← List.length_pos_iff, hlen, heq]
      exact List.length_pos_of_ne_nil hne)
    rwa [h.length] at hbytes
  · intro h
    have hcount := h.count
    have hsize := (size_announced_iff (congrArg Int32.toInt hreason) (hreasons.mpr h.rows)).mpr
      ⟨(hitems hcount).mpr h.items, fun hne => by
        rw [hlen, hcount]
        refine h.bytes ?_
        rw [← List.length_pos_iff, ← hcount, ← hlen]
        exact List.length_pos_of_ne_nil hne⟩
    refine ⟨hlen.trans hcount, hentries, hreasons.mpr h.rows, ?_, hsize.2⟩
    rw [← hcount, ← hlen]
    exact hsize.1

end Entries

/-! ## The page and the dialog -/

/-- A record is made by every save that goes through. -/
theorem Shop.isSome_qcDefectiveInfo (shop : Shop) (card now : QString) :
    (shop.qcDefectiveInfo card now).isSome = shop.qcSave.isSome := by
  unfold Shop.qcDefectiveInfo Shop.qcSave withBoys
  simp only
  split
  · rfl
  · rfl

theorem Shop.qcDefectiveInfo_consistent_iff {shop : Shop} {card now : QString} {info : DefectiveInfo}
    (h : shop.qcDefectiveInfo card now = some info) :
    info.Consistent shop.mainOrderCache (shop.mesTable.map MESTable.inputs) ↔
      Matches shop.mainOrderCache shop.mesTable 0 := by
  obtain ⟨rows, hrows, hinfo⟩ := Option.bind_eq_some_iff.mp h
  obtain ⟨hle, rfl⟩ := withBoys_eq_some.mp hrows
  cases hinfo
  refine consistent_iff_matches rfl ?_ hle fun _ _ => Nat.zero_le _
  show List.map _ (List.zip _ _) = _
  rw [List.zipWith_map_right, List.map_zip_eq_zipWith]
  rfl

namespace Fun36tj

variable {tj : Fun36tj} {order : Order} {card now : QString} {s : Saved}

theorem mapM_adjustData {rows : List (OrderBoy × MESTable)} {l : List AdjustData}
    (h : rows.mapM adjustData = some l) :
    l.map AdjustData.itemNO = rows.map (fun row => row.1.pcsItemNo) ∧
      ∀ row ∈ rows, 2 ≤ row.2.length := by
  induction rows generalizing l with
  | nil =>
    cases h
    exact ⟨rfl, List.forall_mem_nil _⟩
  | cons row rows ih =>
    rw [List.mapM_cons] at h
    obtain ⟨d, hd, h⟩ := Option.bind_eq_some_iff.mp h
    obtain ⟨ds, hds, h⟩ := Option.bind_eq_some_iff.mp h
    cases h
    obtain ⟨hnames, hrows⟩ := ih hds
    obtain ⟨good, -, hd⟩ := Option.bind_eq_some_iff.mp hd
    obtain ⟨empty, hempty, hd⟩ := Option.bind_eq_some_iff.mp hd
    cases hd
    obtain ⟨hlen, -⟩ := List.getElem?_eq_some_iff.mp hempty
    refine ⟨?_, List.forall_mem_cons.mpr ⟨hlen, hrows⟩⟩
    rw [List.map_cons, List.map_cons, hnames]

/-- What is stored, if anything is. -/
structure SavedFor (tj : Fun36tj) (order : Order) (s : Saved) : Prop where
  ne_nil : tj.mesTable ≠ []
  le : tj.mesTable.length ≤ order.orderBoyList.length
  rows : ∀ t ∈ tj.mesTable, 2 ≤ t.length
  adjust : s.adjInfo.adjstDataList.map AdjustData.itemNO =
    (order.orderBoyList.zip tj.mesTable).map fun row => row.1.pcsItemNo
  reasons : s.info.badReasonNum = order.moBadReasonNum
  entry : s.info.badDataList = [(order.orderBoyList.zip tj.mesTable).foldl
    (fun itemInfo row =>
      { itemNo := row.1.pcsItemNo, badData := itemInfo.badData ++ row.2.inputs.drop 2 }) {}]

theorem savedFor_of_save (h : tj.save order card now = some s) : SavedFor tj order s := by
  rw [save] at h
  split at h
  · cases h
  · next hne =>
    obtain ⟨rows, hrows, h⟩ := Option.bind_eq_some_iff.mp h
    obtain ⟨hle, rfl⟩ := withBoys_eq_some.mp hrows
    obtain ⟨l, hl, h⟩ := Option.bind_eq_some_iff.mp h
    cases h
    obtain ⟨hnames, htwo⟩ := mapM_adjustData hl
    refine ⟨fun hnil => hne (by rw [hnil]; rfl), hle, ?_, hnames, rfl, rfl⟩
    rw [← List.map_snd_zip hle, List.forall_mem_map]
    exact htwo

/-- The record of the adjustment, stored by the same save, has every product. -/
theorem adjstDataList_items (h : tj.save order card now = some s)
    (hlen : tj.mesTable.length = order.orderBoyList.length) :
    s.adjInfo.adjstDataList.map AdjustData.itemNO = order.orderBoyList.map OrderBoy.pcsItemNo := by
  rw [(savedFor_of_save h).adjust]
  show List.map (OrderBoy.pcsItemNo ∘ Prod.fst) _ = _
  rw [← List.map_map, List.map_fst_zip hlen.ge]

theorem info_consistent_iff (h : tj.save order card now = some s) :
    s.info.Consistent order (tj.mesTable.map fun t => t.inputs.drop 2) ↔
      order.orderBoyList.length = 1 ∧ Matches order tj.mesTable 2 := by
  have hs := savedFor_of_save h
  have hone : s.info.badDataList.length = 1 := by
    rw [hs.entry]
    rfl
  -- for one product the loop runs once
  have hmatches : order.orderBoyList.length = 1 →
      (s.info.Consistent order (tj.mesTable.map fun t => t.inputs.drop 2) ↔
        Matches order tj.mesTable 2) := by
    intro hlen
    refine consistent_iff_matches hs.reasons ?_ hs.le hs.rows
    obtain ⟨boy, hboy⟩ := List.length_eq_one_iff.mp hlen
    have hle := hs.le
    have hpos := List.length_pos_of_ne_nil hs.ne_nil
    obtain ⟨t, ht⟩ := List.length_eq_one_iff.mp (show tj.mesTable.length = 1 by omega)
    rw [hs.entry, hboy, ht]
    rfl
  constructor
  · intro hc
    have hlen : order.orderBoyList.length = 1 := hc.length.symm.trans hone
    exact ⟨hlen, (hmatches hlen).mp hc⟩
  · rintro ⟨hlen, hm⟩
    exact (hmatches hlen).mpr hm

end Fun36tj

/-! ## Tables just loaded -/

section Loaded

variable {badCfg : Int32 → List QString} {order : Order} {tables : List MESTable}

/-- Entering numbers does not change how long the tables are. -/
theorem forall_length_iff {loaded : List MESTable}
    (h : tables.map List.length = loaded.map List.length) {k : Nat} (hk : ∀ t ∈ loaded, t.length = k) (hne : loaded ≠ []) (P : Nat → Prop) :
    (∀ t ∈ tables, P t.length) ↔ P k := by
  rw [← List.forall_mem_map, h, List.forall_mem_map]
  obtain ⟨t, ht⟩ := List.exists_mem_of_ne_nil _ hne
  constructor
  · intro hall
    rw [← hk t ht]
    exact hall t ht
  · intro hP u hu
    rwa [hk u hu]

/-- The tables of the QC page, whatever was entered: an order that has a number may have fewer
reasons than are configured, but not more. -/
theorem matches_loading
    (h : tables.map List.length = (Shop.loading badCfg order).map List.length)
    (hne : order.orderBoyList ≠ []) :
    Matches order tables 0 ↔
      0 ≤ order.moBadReasonNum.toInt ∧ order.moBadReasonNum.toInt ≤ 255 ∧
        order.orderBoyList.length ≤ 255 ∧
        (if order.moDispatchNo.length > 0 then
          order.moBadReasonNum.toInt ≤ (badCfg order.moBadTypeNo).length
        else order.moBadReasonNum.toInt = (badCfg order.moBadTypeNo).length) ∧
        ∀ boy ∈ order.orderBoyList, Narrow boy.pcsItemNo 20 := by
  have hclamp := Int32.toNat_toInt order.moBadReasonNum
  have hlen := congrArg List.length h
  rw [List.length_map, List.length_map, Shop.loading, List.length_map] at hlen
  have hloaded : ∀ t ∈ Shop.loading badCfg order, t.length =
      (if order.moDispatchNo.length > 0 then
        (badCfg order.moBadTypeNo).take order.moBadReasonNum.toNatClampNeg
      else badCfg order.moBadTypeNo).length := by
    rw [Shop.loading, List.forall_mem_map]
    intro boy _
    rw [List.length_map, List.length_zipIdx]
  have hreasons := forall_length_iff h hloaded (List.map_eq_nil_iff.not.mpr hne)
    fun n => (n : Int) = 0 + order.moBadReasonNum.toInt
  constructor
  · rintro ⟨-, hall, hitems, hbytes⟩
    have hbytes := hbytes hne
    have hall := hreasons.mp hall
    split at hall
    · next hno =>
      rw [List.length_take] at hall
      rw [if_pos hno]
      refine ⟨by omega, hbytes.2, hbytes.1, by omega, hitems⟩
    · next hno =>
      rw [if_neg hno]
      refine ⟨by omega, hbytes.2, hbytes.1, by omega, hitems⟩
  · rintro ⟨hpos, hbyte, hcount, hcfg, hitems⟩
    refine ⟨hlen, hreasons.mpr ?_, hitems, fun _ => ⟨hcount, hbyte⟩⟩
    split
    · next hno =>
      rw [if_pos hno] at hcfg
      rw [List.length_take]
      omega
    · next hno =>
      rw [if_neg hno] at hcfg
      omega

/-- The tables of the dialog: two rows, and one for each reason that is configured. -/
theorem Fun36tj.length_of_loading {loaded : List MESTable}
    (hload : loading badCfg order = some loaded) :
    loaded.length = order.orderBoyList.length ∧
      ∀ t ∈ loaded, t.length = (badCfg order.moBadTypeNo).length + 2 := by
  rw [loading] at hload
  split at hload
  · cases hload
  · cases hload
    refine ⟨List.length_map _, List.forall_mem_map.mpr fun boy _ => ?_⟩
    simp only [List.length_cons, List.length_map, List.length_zipIdx]

/-- The dialog takes all reasons that are configured. -/
theorem Fun36tj.matches_loading {loaded : List MESTable} (hload : loading badCfg order = some loaded)
    (h : tables.map List.length = loaded.map List.length) (hne : order.orderBoyList ≠ []) :
    Matches order tables 2 ↔
      order.moBadReasonNum.toInt = (badCfg order.moBadTypeNo).length ∧
        order.moBadReasonNum.toInt ≤ 255 ∧ order.orderBoyList.length ≤ 255 ∧
        ∀ boy ∈ order.orderBoyList, Narrow boy.pcsItemNo 20 := by
  obtain ⟨hcount, hloaded⟩ := length_of_loading hload
  have hlen := congrArg List.length h
  rw [List.length_map, List.length_map, hcount] at hlen
  have hloaded_ne : loaded ≠ [] := by
    rw [← List.length_pos_iff, hcount]
    exact List.length_pos_of_ne_nil hne
  have hrows : (∀ t ∈ tables, (t.length : Int) = (2 : Nat) + order.moBadReasonNum.toInt) ↔
      order.moBadReasonNum.toInt = (badCfg order.moBadTypeNo).length := by
    rw [forall_length_iff h hloaded hloaded_ne
      fun n => (n : Int) = (2 : Nat) + order.moBadReasonNum.toInt]
    omega
  constructor
  · rintro ⟨-, hall, hitems, hbytes⟩
    exact ⟨hrows.mp hall, (hbytes hne).2, (hbytes hne).1, hitems⟩
  · rintro ⟨hcfg, hbyte, hcount, hitems⟩
    exact ⟨hlen, hrows.mpr hcfg, hitems, fun _ => ⟨hcount, hbyte⟩⟩

end Loaded

/-! ## Both records -/

/-- The record of the page is right exactly if its tables belong to the main order, the record of
the dialog exactly if they do and the order has one product. -/
theorem defectiveInfo_consistent_iff (shop : Shop) (tj : Fun36tj) (order : Order)
    (card now : QString) :
    (∀ info : DefectiveInfo, shop.qcDefectiveInfo card now = some info →
      (info.Consistent shop.mainOrderCache (shop.mesTable.map MESTable.inputs) ↔
        Matches shop.mainOrderCache shop.mesTable 0)) ∧
    ∀ s : Fun36tj.Saved, tj.save order card now = some s →
      (s.info.Consistent order (tj.mesTable.map fun t => t.inputs.drop 2) ↔
        order.orderBoyList.length = 1 ∧ Matches order tj.mesTable 2) := by
  constructor
  · intro info h
    exact Shop.qcDefectiveInfo_consistent_iff h
  · intro s h
    exact Fun36tj.info_consistent_iff h

/-- An order of one product and one reason. -/
def oneProduct : Order :=
  { moDispatchNo := text "D1"
    moBadReasonNum := 1
    orderBoyList := [{ pcsItemNo := text "A" }] }

/-- One row, and one count entered. -/
def oneTable : MESTable := [{ name := text "scratch", inputValue := 3 }]

/-- The table of the dialog has two rows before that. -/
def oneDialogTable : MESTable := { name := [] } :: { name := [] } :: oneTable

def onePage : Shop := { mainOrderCache := oneProduct, mesTable := [oneTable] }

theorem defectiveInfo_consistent_one :
    ∃ info s, onePage.qcDefectiveInfo [] [] = some info ∧
      ({ mesTable := [oneDialogTable] } : Fun36tj).save oneProduct [] [] = some s ∧
        info.Consistent oneProduct [[3]] ∧ s.info.Consistent oneProduct [[3]] := by
  obtain ⟨hpage, hdialog⟩ :=
    defectiveInfo_consistent_iff onePage { mesTable := [oneDialogTable] } oneProduct [] []
  refine ⟨_, _, rfl, rfl, ?_, ?_⟩
  · refine (hpage _ rfl).mpr ⟨rfl, ?_, ?_, fun _ => ?_⟩
    · decide
    · decide
    · decide
  · refine (hdialog _ rfl).mpr ⟨rfl, rfl, ?_, ?_, fun _ => ?_⟩
    · decide
    · decide
    · decide

/-- With two products the dialog stores one entry, of the second product, with the counts of
both. -/
theorem not_consistent_two :
    ¬∀ (tj : Fun36tj) (order : Order) (card now : QString) (s : Fun36tj.Saved),
      tj.save order card now = some s →
        s.info.Consistent order (tj.mesTable.map fun t => t.inputs.drop 2) := by
  intro h
  have htwo := h
    { mesTable := [oneDialogTable, oneDialogTable] }
    { oneProduct with orderBoyList := [{ pcsItemNo := text "A" }, { pcsItemNo := text "B" }] }
    [] [] _ rfl
  exact absurd htwo.length (by decide)

end ProgrammingPath.Mes
