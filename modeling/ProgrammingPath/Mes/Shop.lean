import ProgrammingPath.Mes.Request

/-!
# The main order (`Sqlite/OrderMainOperation.cpp`, `NetCSCP/CSCPAction.cpp`, `Action/`)

The order with number 1 is the main order: moulds are counted for it, and the pages show it. It is
kept in memory (`mainOrderCache`) beside the database, and `OnUpdate` reads it again after every
change. The signals involved are connected directly, so a slot runs inside the call that emits:

    CSCPAction --OnSignalOrderTableChange--> OrderMainOperation::OnUpdate
      --OnSignalUpdateMainOrder--> MainQCCheckPage::OnUpdateMainOrder

`Shop` is the state these share. Operations that index a list past its end return `none`.
-/

namespace ProgrammingPath.Mes

open ProgrammingPath.Qt ProgrammingPath.Lib

/-- A cell of the defect table: the count so far and the count entered. -/
structure MESTableItem where
  name : QString
  value : Int32 := 0
  inputValue : Int32 := 0
  deriving DecidableEq, Repr

namespace MESTableItem

def getSumValue (item : MESTableItem) : Int32 := item.value + item.inputValue

end MESTableItem

abbrev MESTable := List MESTableItem

/-- What was entered for a product. -/
def MESTable.inputs (table : MESTable) : List Int32 := table.map (·.inputValue)

/-- The counts of a product with what was entered. -/
def MESTable.sums (table : MESTable) : List Int32 := table.map (·.getSumValue)

structure Shop where
  db : DB := {}
  mainOrderCache : Order := {}
  /-- `MainQCCheckPage::m_MESTable`, one table for each product -/
  mesTable : List MESTable := []
  /-- the order that `m_MESTable` was loaded from; the program does not keep it, and nothing below
  reads it -/
  loadedOrder : Order := {}
  /-- `AppInfo::bad_cfg.name`: for each defect type the names of the reasons -/
  badCfg : Int32 → List QString := fun _ => []

/-! ## Reading the main order -/

/-- `OrderMainOperation::OnUpdate`, as far as the database and the cache are concerned. Without an
order of number 1 an empty one is created. -/
def DB.onUpdate (db : DB) : DB × Order :=
  match db.queryFlag 1 with
  | some order => (db, db.getBoy order)
  | none => (db.subimtOrder { mainOrderFlag := 1 }, { mainOrderFlag := 1 })

namespace Shop

/-- `MainQCCheckPage::Loading`. For an order that is not the empty one, no more reasons are shown
than the order has. -/
def loading (badCfg : Int32 → List QString) (order : Order) : List MESTable :=
  let qcNameList := badCfg order.moBadTypeNo
  let shown :=
    if order.moDispatchNo.length > 0 then qcNameList.take order.moBadReasonNum.toNatClampNeg
    else qcNameList
  order.orderBoyList.map fun boy =>
    shown.zipIdx.map fun nj => { name := nj.1, value := boy.pcsBadData.getD nj.2 0 }

/-- Load the table from the main order. -/
def loadTable (shop : Shop) : Shop :=
  { shop with
    mesTable := loading shop.badCfg shop.mainOrderCache
    loadedOrder := shop.mainOrderCache }

/-- `MainQCCheckPage::OnUpdateMainOrder`: the table is loaded only when it is empty. -/
def onUpdateMainOrder (shop : Shop) : Shop :=
  if shop.mesTable.length = 0 then shop.loadTable else shop

/-- `OrderMainOperation::OnUpdate`. -/
def onUpdate (shop : Shop) : Shop :=
  ({ shop with
      db := shop.db.onUpdate.1
      mainOrderCache := shop.db.onUpdate.2 } : Shop).onUpdateMainOrder

/-! ## Operations on the main order -/

/-- The products of the main order, changed by the operation paired with each. -/
def applyBoys (shop : Shop) (ops : List (OrderBoy × BoyOp)) : Shop :=
  { shop with
    db := (shop.db.applyBoys ops).1
    mainOrderCache := { shop.mainOrderCache with orderBoyList := (shop.db.applyBoys ops).2 } }

/-- `OrderMainOperation::OnReplaceClass`: a new shift begins. -/
def onReplaceClass (shop : Shop) : Shop :=
  (shop.applyBoys (shop.mainOrderCache.orderBoyList.map fun b => (b, .onReplaceClass))).onUpdate

/-- The two notes of a change of order. -/
def brushChangeOrder (db : DB) : DB := (db.insertNotebook .brushCard).insertNotebook .brushCard

/-- `OrderMainOperation::OnReplaceOrder`: the main order is done, the next one takes its place. -/
def onReplaceOrder (shop : Shop) : Shop :=
  let shop := ({ shop with
    db := (shop.db.removeOrder shop.mainOrderCache.moDispatchNo).sort } : Shop).onUpdate
  { shop with db := brushChangeOrder shop.db }

/-- The part of `OnAddModeCount` before the change of order: one more mould, `PCS_SocketNum2` more
pieces of each product, and a record for upload. `producted` holds what the machine measured. -/
def countMould (shop : Shop) (producted : Producted) : Shop :=
  let shop := { shop with
    db := shop.db.onAddMOTotalNum shop.mainOrderCache.moDispatchNo 1
    mainOrderCache := { shop.mainOrderCache with
      moTotalNum := shop.mainOrderCache.moTotalNum + 1 } }
  let shop := shop.applyBoys (shop.mainOrderCache.orderBoyList.map fun b =>
    (b, .onAddCurClassProductNo (1 * b.pcsSocketNum2)))
  { shop with
    db := shop.db.subimtProducted { producted with
      dispatchNo := shop.mainOrderCache.moDispatchNo
      dispatchPrior := shop.mainOrderCache.moDispatchPrior
      procCode := shop.mainOrderCache.moProcCode
      staCode := shop.mainOrderCache.moStaCode
      totalNum := shop.mainOrderCache.moTotalNum } }

/-- The order is complete: its first product has reached the quantity dispatched. -/
def reached (order : Order) : Bool :=
  match order.orderBoyList with
  | [] => false
  | boy :: _ => boy.totalOkNum ≥ boy.pcsDispatchQty

/-- `OrderMainOperation::OnAddModeCount`. `haveStopCard` and `autoChangeOrder` are settings. -/
def onAddModeCount (shop : Shop) (haveStopCard autoChangeOrder : Bool) (producted : Producted) :
    Shop :=
  if haveStopCard then shop
  else
    let shop := shop.countMould producted
    let shop :=
      if autoChangeOrder && reached shop.mainOrderCache then shop.onReplaceOrder else shop
    shop.onUpdate

/-- `OrderMainOperation::OnDelete`. -/
def onDelete (shop : Shop) : Shop :=
  let order := (shop.db.queryFlag 1).getD {}
  ({ shop with db := (shop.db.removeOrder order.moDispatchNo).sort } : Shop).onUpdate

/-! ## Orders from the server -/

/-- `CSCPAction::OnOrderSend`. An empty order is removed first; an order that exists is refused. -/
def onOrderSend (shop : Shop) (order : Order) (materialList : List Material) : Shop :=
  let db := shop.db.removeOrder []
  if db.countMODispatchNo order.moDispatchNo ≠ 0 then { shop with db := db }
  else
    let db := db.subimtOrder { order with mainOrderFlag := db.countOrder + 1 }
    ({ shop with db := materialList.foldl DB.subimtMaterial db } : Shop).onUpdate

/-- `CSCPAction::OnOrderDelete`: only an order that was not begun is deleted. -/
def onOrderDelete (shop : Shop) (no : QString) : Shop :=
  match shop.db.queryNo no with
  | none => shop
  | some order =>
    if order.moTotalNum > 0 then shop
    else
      let db := if order.mainOrderFlag = 1 then brushChangeOrder shop.db else shop.db
      ({ shop with db := (db.removeOrder order.moDispatchNo).sort } : Shop).onUpdate

/-- `CSCPAction::OnOrderModify`. -/
def onOrderModify (shop : Shop) (index : Int) (dispatchNo : QString) : Shop :=
  ({ shop with db := shop.db.updateMainOrderFlag dispatchNo index } : Shop).onUpdate

/-- The adjustment of the orders, case `0x07` of `CSCPNotebookTask::slot_protocol_control_dev`. -/
def adjustOrders (shop : Shop) (orderIndexList : List OrderIndex) : Shop :=
  orderIndexList.foldl (fun shop i => shop.onOrderModify i.serialNumber.toNat i.dispatchNo) shop

/-- `CSCPAction::OnOrderReplace`. It works on an `OrderMainOperation` of its own, with its own
cache; only the signal at the end reaches the main one. -/
def onOrderReplace (shop : Shop) : Shop :=
  let (db, cache) := shop.db.onUpdate
  let (db, _) := ((db.removeOrder cache.moDispatchNo).sort).onUpdate
  ({ shop with db := brushChangeOrder db } : Shop).onUpdate

/-! ## The pages -/

/-- `MainQCCheckPage::on_tableWidgetQCList_itemClicked`: the count `v` is entered for a product and
a reason. It is refused when the counts entered exceed the good pieces of the shift. -/
def inputCell (shop : Shop) (boyIndex index : Nat) (v : Int32) : Option Shop :=
  match shop.mesTable[boyIndex]? with
  | none => some shop
  | some table =>
    match table[index]? with
    | none => some shop
    | some item =>
      match shop.mainOrderCache.orderBoyList[boyIndex]? with
      | none => none
      | some boy =>
        let sum := v + table.inputs.sum + boy.curClassPolishNo
        let okNum := boy.curClassProductNo - boy.curClassBadNo
        if sum > okNum then some shop
        else
          some { shop with
            mesTable := shop.mesTable.set boyIndex (table.set index { item with inputValue := v }) }

/-- What a save does to one product, given its row of the table: the counts entered are added to
its defects and those of the shift, and the list of defects is set to what the table shows. -/
def saveOp (table : MESTable) : BoyOp :=
  ((BoyOp.onAddPcsBadQty table.inputs.sum).andThen
    (.onAddCurClassBadNo table.inputs.sum)).andThen (.onUpdatePCSBadData table.sums)

/-- The products of the main order, each with what a save does to it. -/
def saveOps (shop : Shop) : List (OrderBoy × BoyOp) :=
  shop.mainOrderCache.orderBoyList.zipIdx.map fun bi =>
    (bi.1, (shop.mesTable[bi.2]?).elim BoyOp.skip saveOp)

/-- `MainQCCheckPage::on_btSave_clicked`, once the card was read. -/
def qcSave (shop : Shop) : Option Shop :=
  if shop.mainOrderCache.orderBoyList.length < shop.mesTable.length then none
  else
    let shop := shop.applyBoys shop.saveOps
    let shop := { shop with db := shop.db.insertNotebook .defectiveInfo }
    some shop.loadTable.onUpdate

/-- What the cavity adjustment does to a product in memory after its cavities were changed. -/
def clearBoy (boy : OrderBoy) : OrderBoy :=
  { boy with
    pcsDispatchQty := boy.pcsDispatchQty - boy.totalOkNum
    adjOKNum := 0
    adjEmptyMoldNum := 0
    adjDefCount := 0
    curClassInspectNo := 0
    pcsAdjNum := 0
    curClassPolishNo := 0
    totalOkNum := 0
    curClassBadNo := 0
    curClassProductNo := 0 }

/-- The order with its counters cleared and the next `MO_DispatchPrior`. -/
def clearOrder (order : Order) (prior : QString) : Order :=
  { order with
    moDispatchPrior := prior
    moTotalNum := 0
    orderBoyList := order.orderBoyList.map clearBoy }

/-- `Fun38AdjSocketNum::on_btSave_clicked`, once the card was read: `list` are the cavity numbers
of the cells, and `prior` the text of the next `MO_DispatchPrior`. The counters are cleared in
memory and the order is stored. -/
def adjSocketNum (shop : Shop) (list : List Int32) (prior : QString) : Option Shop :=
  if list.any (· == 0) then some shop
  else if list.length < shop.mainOrderCache.orderBoyList.length then none
  else
    let shop := shop.applyBoys (shop.mainOrderCache.orderBoyList.zip
      (list.map BoyOp.onUpdatePcsSocketNum2))
    let db := shop.db.insertNotebook (.otherSetInfo 0x03)
    let order := clearOrder shop.mainOrderCache prior
    let shop := ({ shop with db := db.subimtOrder order, mainOrderCache := order } : Shop).onUpdate
    some { shop with db := brushChangeOrder shop.db }

/-! ## Runs of the program, as far as the main order is concerned -/

/-- An order arrives (`0xD0`): it is decoded and handed to `OnOrderSend`. -/
def onOrderFrame (shop : Shop) (pack : MESPack) : Shop :=
  match MESOrderRequest.decode shop.db pack with
  | none => shop
  | some request => shop.onOrderSend request.order request.materialList

inductive Act where
  | orderFrame (pack : MESPack)
  | orderDelete (no : QString)
  | orderReplace
  | delete
  | addModeCount (haveStopCard autoChangeOrder : Bool) (producted : Producted)
  | replaceClass
  | inputCell (boyIndex index : Nat) (v : Int32)
  | qcSave
  | adjSocketNum (list : List Int32) (prior : QString)
  deriving DecidableEq, Repr

def step (shop : Shop) : Act → Option Shop
  | .orderFrame pack => some (shop.onOrderFrame pack)
  | .orderDelete no => some (shop.onOrderDelete no)
  | .orderReplace => some shop.onOrderReplace
  | .delete => some shop.onDelete
  | .addModeCount haveStopCard autoChangeOrder producted =>
    some (shop.onAddModeCount haveStopCard autoChangeOrder producted)
  | .replaceClass => some shop.onReplaceClass
  | .inputCell boyIndex index v => shop.inputCell boyIndex index v
  | .qcSave => shop.qcSave
  | .adjSocketNum list prior => shop.adjSocketNum list prior

/-- The program after it was started with an empty database. -/
def init (badCfg : Int32 → List QString) : Shop := ({ badCfg := badCfg } : Shop).onUpdate

end Shop

end ProgrammingPath.Mes
