import ProgrammingPath.Lib.FirstMatch
import ProgrammingPath.Mes.Shop

/-!
# The function buttons (`Action/mainproductorderpage.cpp`, `Action/UIPageButton.cpp`,
`Public/ButtonStatus.cpp`)

The production page has a button for every key of the configuration. A function that takes time is
begun with a card and ended with a card, and its button shows which of the two comes next. Some keys
are marked as stopping the machine; unless the system is configured for it, only one of them may be
begun at a time, and the handlers ask `OtherStopCardCheck` for that. The faults (24 to 26) and the
machine adjustment (36) are begun and ended in a dialog of their own.

A step is `none` when the program follows a null pointer. A press while a dialog is open does not
reach the page, and neither does a press in a dialog that is not open: it changes nothing. Whether a
card is accepted is decided in `ToolICScanDialog`; here its number is given with the press, and
`none` is a dialog that was rejected.
-/

namespace ProgrammingPath.Mes

open ProgrammingPath.Qt ProgrammingPath.Lib

/-! ## Configuration -/

/-- `MESPDFuncCfg::SetKeyInfo`; `status` is the byte of the file, `1` for `STOP`. -/
structure SetKeyInfo where
  name : QString := []
  funIndex : UInt16
  status : UInt8 := 0
  deriving DecidableEq, Repr

def SetKeyInfo.isStopMachineFun (key : SetKeyInfo) : Bool := key.status == 1

structure MESPDFuncCfg where
  setKeyList : List SetKeyInfo
  notSetKeyList : List SetKeyInfo := []
  deriving DecidableEq, Repr

def MESPDFuncCfg.getSetKeyInfo (cfg : MESPDFuncCfg) (funIndex : UInt16) : Option SetKeyInfo :=
  match cfg.setKeyList.find? (fun k => k.funIndex == funIndex) with
  | some key => some key
  | none => cfg.notSetKeyList.find? (fun k => k.funIndex == funIndex)

/-- `MESFaultTypeCfg::TypeItem`. -/
structure TypeItem where
  index : Int
  type : QString
  deriving DecidableEq, Repr

/-- `MESFaultTypeCfg::TypeInfo`. -/
structure TypeInfo where
  typeName : QString
  typeList : List TypeItem
  deriving DecidableEq, Repr

/-- What the page reads of `AppInfo`. -/
structure PageCfg where
  pdFuncCfg : MESPDFuncCfg
  /-- the value of function 3 of `sys_func_cfg` -/
  multipleStop : Int := 0
  faultInfoList : List TypeInfo := []
  deriving DecidableEq, Repr

namespace PageCfg

def isMultipleStopStatus (cfg : PageCfg) : Bool := cfg.multipleStop == 1

def getFault (cfg : PageCfg) (typeName : QString) : Option TypeInfo :=
  cfg.faultInfoList.find? (fun info => info.typeName == typeName)

/-- The key that is found for a function stops the machine. -/
def isStop (cfg : PageCfg) (funIndex : UInt16) : Bool :=
  (cfg.pdFuncCfg.getSetKeyInfo funIndex).any (·.isStopMachineFun)

/-- The buttons of the page: `pushButton_1` to `pushButton_22`, without two. -/
def pageSize : Nat := 20

/-- The keys shown on a page. -/
def pageKeys (cfg : PageCfg) (pageIndex : Nat) : List SetKeyInfo :=
  (cfg.pdFuncCfg.setKeyList.drop (pageIndex * pageSize)).take pageSize

def pageSum (cfg : PageCfg) : Nat := cfg.pdFuncCfg.setKeyList.length / pageSize

end PageCfg

/-! ## State -/

/-- `ButtonStatus`; `showStatus` is `1` for "end" and `0` for "start". -/
structure ButtonStatus where
  name : QString
  funIndex : UInt16
  showStatus : Int := 1
  /-- `onStatChange` is connected to the page -/
  connected : Bool := true
  deriving DecidableEq, Repr

namespace ButtonStatus

def isShowStart (b : ButtonStatus) : Bool := b.showStatus == 0

def isShowEnd (b : ButtonStatus) : Bool := b.showStatus == 1

def getKeyInfo (cfg : PageCfg) (b : ButtonStatus) : Option SetKeyInfo :=
  cfg.pdFuncCfg.getSetKeyInfo b.funIndex

/-- The machine stands still because of this button. -/
def isStopStart (cfg : PageCfg) (b : ButtonStatus) : Bool := b.isShowStart && cfg.isStop b.funIndex

end ButtonStatus

inductive FaultStatus where
  /-- "完成" -/
  | finished
  /-- "待维修确认" -/
  | waiting
  deriving DecidableEq, Repr

/-- The choice in the box about a fault: report it, or confirm the repair one way or the other. -/
inductive FaultAnswer where
  | report
  | ok
  | ng
  | cancel
  deriving DecidableEq, Repr

/-- What becomes of a fault. -/
def FaultStatus.answer : FaultStatus → FaultAnswer → FaultStatus
  | .finished, .report => .waiting
  | .waiting, .ok | .waiting, .ng => .finished
  | s, _ => s

structure FaultItem where
  index : Int
  name : QString
  status : FaultStatus
  deriving DecidableEq, Repr

/-- The dialog that is open, with the function of its `btStatus`. -/
inductive Dialog where
  | fun24fsgz (funIndex : UInt16) (mList : List FaultItem)
  | fun36tj (funIndex : UInt16)
  deriving DecidableEq, Repr

def Dialog.funIndex : Dialog → UInt16
  | .fun24fsgz f _ => f
  | .fun36tj f => f

/-- The card data of a note (`BrushCard`). -/
structure BrushCard where
  cardNo : QString
  cardType : UInt16
  isBeginEnd : Nat
  deriving DecidableEq, Repr

structure Page where
  uiBtStatus : List ButtonStatus
  pageIndex : Nat := 0
  dialog : Option Dialog := none
  /-- `AppInfo::haveStopCard` -/
  haveStopCard : Bool := false
  /-- the files under `tmp` with the state of the faults, by the name of the button -/
  faultFiles : QString → Option (List FaultItem) := fun _ => none
  /-- the notes of cards, in the order they were written -/
  brushCards : List BrushCard := []
  shop : Shop := {}

namespace Page

/-- `UIPageButtonStatus::XMLFileReadUIBtStatus` without a file of saved states. -/
def readUIBtStatus (cfg : PageCfg) : List ButtonStatus :=
  cfg.pdFuncCfg.setKeyList.map fun key => { name := key.name, funIndex := key.funIndex }

/-- `UIPageButtonStatus::getUIBtStatus`. -/
def getUIBtStatus (p : Page) (funIndex : UInt16) : Option ButtonStatus :=
  p.uiBtStatus.find? (fun b => b.funIndex == funIndex)

def isStopCard (cfg : PageCfg) (p : Page) : Bool := p.uiBtStatus.any (·.isStopStart cfg)

def isOtherStopCard (cfg : PageCfg) (p : Page) (bt : ButtonStatus) : Bool :=
  p.uiBtStatus.any fun b => b.funIndex != bt.funIndex && b.isStopStart cfg

/-- `MainProductOrderPage::OtherStopCardCheck`. -/
def otherStopCardCheck (cfg : PageCfg) (p : Page) (bt : ButtonStatus) : Bool :=
  !cfg.isMultipleStopStatus && !bt.isShowStart && p.isOtherStopCard cfg bt

/-- `UIPageButtonStatus::onButtonStatChang`. -/
def onButtonStatChang (cfg : PageCfg) (p : Page) : Page :=
  { p with haveStopCard := p.isStopCard cfg }

/-- `emit onStatChange(this)`: a button that is not connected tells nobody. -/
def onStatChange (cfg : PageCfg) (p : Page) (funIndex : UInt16) : Page :=
  { p with
    haveStopCard :=
      if (p.getUIBtStatus funIndex).any (·.connected) then (p.onButtonStatChang cfg).haveStopCard
      else p.haveStopCard }

/-- Set what the button of a function shows, through the pointer `getUIBtStatus` returned. -/
def setShow (cfg : PageCfg) (p : Page) (funIndex : UInt16) (status : Int) : Page :=
  ({ p with
      uiBtStatus := updateFirst (fun b => b.funIndex == funIndex)
        (fun b => { b with showStatus := status }) p.uiBtStatus } : Page).onStatChange cfg funIndex

def setShowStartCard (cfg : PageCfg) (p : Page) (funIndex : UInt16) : Page :=
  p.setShow cfg funIndex 0

def setShowEndCard (cfg : PageCfg) (p : Page) (funIndex : UInt16) : Page :=
  p.setShow cfg funIndex 1

/-- `Notebook(title, brush).insert()`. -/
def brush (p : Page) (cardNo : QString) (cardType : UInt16) (isBeginEnd : Nat) : Page :=
  { p with
    brushCards := p.brushCards ++ [⟨cardNo, cardType, isBeginEnd⟩]
    shop := { p.shop with db := p.shop.db.insertNotebook .brushCard } }

/-- `UIPageButtonStatus::getUIBtStatus` for a key: a button that is missing is added. It shows
"start" and is not connected. -/
def addButton (p : Page) (key : SetKeyInfo) : Page :=
  if p.uiBtStatus.any (fun b => b.funIndex == key.funIndex) then p
  else { p with uiBtStatus := p.uiBtStatus ++ [⟨key.name, key.funIndex, 0, false⟩] }

/-- `UIPageButton::show`. -/
def showPage (cfg : PageCfg) (p : Page) : Page := (cfg.pageKeys p.pageIndex).foldl addButton p

def upPage (cfg : PageCfg) (p : Page) : Page := showPage cfg { p with pageIndex := p.pageIndex - 1 }

def downPage (cfg : PageCfg) (p : Page) : Page :=
  showPage cfg (if p.pageIndex < cfg.pageSum then { p with pageIndex := p.pageIndex + 1 } else p)

/-! ## The handlers -/

/-- Begin or end a function with a card, as most handlers do. -/
def brushCard (cfg : PageCfg) (p : Page) (bt : ButtonStatus) (cardNo : QString) : Page :=
  showPage cfg
    (if bt.isShowStart then (p.brush cardNo bt.funIndex 1).setShowEndCard cfg bt.funIndex
    else (p.brush cardNo bt.funIndex 0).setShowStartCard cfg bt.funIndex)

/-- The handlers of 21, 22, 27, 28, 29, 31, 32, 39, 44 and 47: a key that stops the machine is
checked against the others before the card is asked for. -/
def cardButton (cfg : PageCfg) (p : Page) (funIndex : UInt16) (card : Option QString) :
    Option Page := do
  let bt ← p.getUIBtStatus funIndex
  let key ← bt.getKeyInfo cfg
  if key.isStopMachineFun && p.otherStopCardCheck cfg bt then return p
  match card with
  | none => return p
  | some cardNo => return p.brushCard cfg bt cardNo

abbrev funButton21 := cardButton
abbrev funButton22 := cardButton
abbrev funButton27 := cardButton
abbrev funButton28 := cardButton
abbrev funButton29 := cardButton
abbrev funButton31 := cardButton
abbrev funButton32 := cardButton
abbrev funButton39 := cardButton
abbrev funButton44 := cardButton
abbrev funButton47 := cardButton

/-- `MainProductOrderPage::funButton23` (change of order): the check is made for any key, and the
main order is deleted at the end. -/
def funButton23 (cfg : PageCfg) (p : Page) (funIndex : UInt16) (card : Option QString) :
    Option Page := do
  let bt ← p.getUIBtStatus funIndex
  if p.otherStopCardCheck cfg bt then return p
  match card with
  | none => return p
  | some cardNo =>
    return (showPage cfg
      (if bt.isShowStart then
        (({ p with shop := p.shop.onDelete } : Page).brush cardNo 23 1).setShowEndCard cfg funIndex
      else (p.brush cardNo 23 0).setShowStartCard cfg funIndex))

/-- `Fun24fsgz::loading`: the faults of the configuration with the state saved for each, the last
one saved if there are several; the file is written when there is none. -/
def loading (cfg : PageCfg) (p : Page) (name : QString) : List FaultItem × Page :=
  match cfg.getFault name with
  | none => ([], p)
  | some info =>
    match p.faultFiles name with
    | none =>
      let list := info.typeList.map fun t => ⟨t.index, t.type, .finished⟩
      (list, { p with faultFiles := Function.update p.faultFiles name (some list) })
    | some tmp =>
      let saved (t : TypeItem) :=
        tmp.foldl (fun s f => if f.index = t.index then f.status else s) .finished
      (info.typeList.map fun t => ⟨t.index, t.type, saved t⟩, p)

/-- The handlers of 24, 25 and 26 (faults): checked as the others, then the dialog opens. -/
def faultButton (cfg : PageCfg) (p : Page) (funIndex : UInt16) : Option Page := do
  let bt ← p.getUIBtStatus funIndex
  let key ← bt.getKeyInfo cfg
  if key.isStopMachineFun && p.otherStopCardCheck cfg bt then return p
  let r := p.loading cfg bt.name
  return { r.2 with dialog := some (.fun24fsgz funIndex r.1) }

abbrev funButton24 := faultButton
abbrev funButton25 := faultButton
abbrev funButton26 := faultButton

/-- `MainProductOrderPage::funButton30` (change of shift): a note, and no state. -/
def funButton30 (cfg : PageCfg) (p : Page) (funIndex : UInt16) (card : Option QString) :
    Option Page := do
  let bt ← p.getUIBtStatus funIndex
  let key ← bt.getKeyInfo cfg
  if key.isStopMachineFun && p.otherStopCardCheck cfg bt then return p
  match card with
  | none => return p
  | some cardNo => return p.brush cardNo funIndex 0

/-- `funButton33` and `funButton34` (coming to work, leaving work): a note without a check. -/
def dutyButton (p : Page) (funIndex : UInt16) (card : Option QString) : Option Page := do
  let _ ← p.getUIBtStatus funIndex
  match card with
  | none => return p
  | some cardNo => return p.brush cardNo funIndex 0

abbrev funButton33 := dutyButton
abbrev funButton34 := dutyButton

/-- `Fun36tj::Loading`: there are reasons for defects and the main order has products. -/
def tjLoading (p : Page) : Bool :=
  (p.shop.badCfg p.shop.mainOrderCache.moBadTypeNo).length ≠ 0 &&
    p.shop.mainOrderCache.orderBoyList.length ≠ 0

/-- `MainProductOrderPage::funButton36` (machine adjustment): the dialog opens without a check. -/
def funButton36 (cfg : PageCfg) (p : Page) (funIndex : UInt16) : Option Page := do
  let _ ← p.getUIBtStatus funIndex
  if p.tjLoading then return { p with dialog := some (.fun36tj funIndex) }
  else return showPage cfg p

/-- `funButton41` and `funButton42`: the card is bound to the button, then a dialog about the
products opens, which is left out here. -/
def bindButton (cfg : PageCfg) (p : Page) (funIndex : UInt16) (card : Option QString) :
    Option Page := do
  let _ ← p.getUIBtStatus funIndex
  match card with
  | none => return p
  | some _ => return showPage cfg (p.onStatChange cfg funIndex)

abbrev funButton41 := bindButton
abbrev funButton42 := bindButton

/-- The handlers of 35, 37, 38, 40, 43, 45 and 46 work on orders and notes, which is left out here;
they look their button up and leave it alone. -/
def otherButton (p : Page) (funIndex : UInt16) : Option Page := do
  let _ ← p.getUIBtStatus funIndex
  return p

abbrev funButton35 := otherButton
abbrev funButton37 := otherButton
abbrev funButton38 := otherButton
abbrev funButton40 := otherButton
abbrev funButton43 := otherButton
abbrev funButton45 := otherButton
abbrev funButton46 := otherButton

/-- The `switch` of `UIPageButton::click`: the key decides about the handler. -/
def onKey (cfg : PageCfg) (p : Page) (key : SetKeyInfo) (card : Option QString) : Option Page :=
  match key.funIndex.toNat with
  | 21 => p.funButton21 cfg key.funIndex card
  | 22 => p.funButton22 cfg key.funIndex card
  | 23 => p.funButton23 cfg key.funIndex card
  | 24 => p.funButton24 cfg key.funIndex
  | 25 => p.funButton25 cfg key.funIndex
  | 26 => p.funButton26 cfg key.funIndex
  | 27 => p.funButton27 cfg key.funIndex card
  | 28 => p.funButton28 cfg key.funIndex card
  | 29 => p.funButton29 cfg key.funIndex card
  | 30 => p.funButton30 cfg key.funIndex card
  | 31 => p.funButton31 cfg key.funIndex card
  | 32 => p.funButton32 cfg key.funIndex card
  | 33 => p.funButton33 key.funIndex card
  | 34 => p.funButton34 key.funIndex card
  | 35 => p.funButton35 key.funIndex
  | 36 => p.funButton36 cfg key.funIndex
  | 37 => p.funButton37 key.funIndex
  | 38 => p.funButton38 key.funIndex
  | 39 => p.funButton39 cfg key.funIndex card
  | 40 => p.funButton40 key.funIndex
  | 41 => p.funButton41 cfg key.funIndex card
  | 42 => p.funButton42 cfg key.funIndex card
  | 43 => p.funButton43 key.funIndex
  | 44 => p.funButton44 cfg key.funIndex card
  | 45 => p.funButton45 key.funIndex
  | 46 => p.funButton46 key.funIndex
  | 47 => p.funButton47 cfg key.funIndex card
  | _ => some p

/-- `UIPageButton::click`. -/
def click (cfg : PageCfg) (p : Page) (index : Nat) (card : Option QString) : Option Page :=
  if index < PageCfg.pageSize then
    match cfg.pdFuncCfg.setKeyList[p.pageIndex * PageCfg.pageSize + index]? with
    | none => some p
    | some key => p.onKey cfg key card
  else some p

/-! ## The dialogs -/

/-- `on_btStart_clicked`, the same in both dialogs. -/
def btStart (cfg : PageCfg) (p : Page) (funIndex : UInt16) (card : Option QString) :
    Option Page := do
  let bt ← p.getUIBtStatus funIndex
  if bt.isShowStart then return p
  match card with
  | none => return p
  | some cardNo =>
    let key ← bt.getKeyInfo cfg
    return (p.brush cardNo key.funIndex 0).setShowStartCard cfg funIndex

/-- `Fun24fsgz::on_btEnd_clicked`: every fault has to be repaired. -/
def btEnd (cfg : PageCfg) (p : Page) (funIndex : UInt16) (mList : List FaultItem)
    (card : Option QString) : Option Page := do
  let bt ← p.getUIBtStatus funIndex
  if bt.isShowEnd then return p
  if mList.any (fun item => item.status ≠ .finished) then return p
  match card with
  | none => return p
  | some cardNo =>
    let key ← bt.getKeyInfo cfg
    return (p.brush cardNo key.funIndex 1).setShowEndCard cfg funIndex

/-- The adjustment counts of a product are set back when the adjustment ends. The text is "0". -/
def clearAdj : BoyOp where
  mem b := { b with adjOKNum := 0, adjEmptyMoldNum := 0, adjDefList := [48], adjDefCount := 0 }
  row _ r := { r with adjOKNum := 0, adjEmptyMoldNum := 0, adjDefList := [48], adjDefCount := 0 }
  row_id _ _ := rfl

/-- `Fun36tj::on_btClose_clicked`. -/
def btClose (cfg : PageCfg) (p : Page) (funIndex : UInt16) (card : Option QString) :
    Option Page := do
  let bt ← p.getUIBtStatus funIndex
  if bt.isShowEnd then return p
  match card with
  | none => return p
  | some cardNo =>
    let key ← bt.getKeyInfo cfg
    let p := p.brush cardNo key.funIndex 1
    let p := { p with
      shop := p.shop.applyBoys (p.shop.mainOrderCache.orderBoyList.map fun b => (b, clearAdj)) }
    return p.setShowEndCard cfg funIndex

/-- `Fun24fsgz::on_tableWidget_2_itemClicked`. The new state is saved whatever the choice; a note is
written when the state changes. -/
def itemClicked (cfg : PageCfg) (p : Page) (funIndex : UInt16) (mList : List FaultItem) (row : Nat)
    (answer : FaultAnswer) (cardNo : QString) : Option Page := do
  let bt ← p.getUIBtStatus funIndex
  match cfg.getFault bt.name, mList[row]? with
  | some _, some item =>
    if bt.isShowEnd then return p
    let status := item.status.answer answer
    let mList := mList.set row { item with status := status }
    let p := if status = item.status then p
      else p.brush cardNo funIndex (if item.status = .finished then 0 else 1)
    return { p with
      dialog := some (.fun24fsgz funIndex mList)
      faultFiles := Function.update p.faultFiles bt.name (some mList) }
  | _, _ => return p

/-! ## Steps -/

inductive Event where
  | upPage
  | downPage
  /-- a press of a button of the page, with the card that is read if one is asked for -/
  | click (index : Nat) (card : Option QString)
  /-- the buttons of the dialog that is open -/
  | start (card : Option QString)
  | close (card : Option QString)
  | item (row : Nat) (answer : FaultAnswer) (cardNo : QString)
  | exit
  /-- something happens to the orders meanwhile -/
  | shop (act : Shop.Act)

def step (cfg : PageCfg) (p : Page) : Event → Option Page
  | .upPage => if p.dialog.isSome then some p else some (p.upPage cfg)
  | .downPage => if p.dialog.isSome then some p else some (p.downPage cfg)
  | .click index card => if p.dialog.isSome then some p else p.click cfg index card
  | .start card =>
    match p.dialog with
    | none => some p
    | some d => p.btStart cfg d.funIndex card
  | .close card =>
    match p.dialog with
    | none => some p
    | some (.fun24fsgz f mList) => p.btEnd cfg f mList card
    | some (.fun36tj f) => p.btClose cfg f card
  | .item row answer cardNo =>
    match p.dialog with
    | some (.fun24fsgz f mList) => p.itemClicked cfg f mList row answer cardNo
    | _ => some p
  | .exit => if p.dialog.isSome then some (showPage cfg { p with dialog := none }) else some p
  | .shop act => some { p with shop := (p.shop.step act).getD p.shop }

end Page

end ProgrammingPath.Mes
