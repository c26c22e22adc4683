import ProgrammingPath.Lib.Run
import ProgrammingPath.Mes.Order
import ProgrammingPath.Qt.Number

/-!
# The columns of orders (`Sqlite/Entity/Order.cpp`, `Sqlite/Entity/absentity.cpp`)

`Mes.Order` takes a row for the object that is read from it. Here the rows have columns that may be
`NULL`, and three lists kept by hand decide what becomes of an order: the columns a `REPLACE` names,
the values bound to them, and the column map the rows are read with. `REPLACE` leaves `NULL` in
every column it does not name, and `NULL` is passed over when a row is read.

`ADJDefCount` is the one column that is read and not written. `persisted_iff` says what follows: an
order comes back if that count is `0`, and storing again what was read changes the tables unless
the columns that are not named are `NULL` already. `toDB_subimtOrder` says that the rows, as they
are read, are those of `Mes.Order`.
-/

namespace ProgrammingPath.Mes

open ProgrammingPath.Qt ProgrammingPath.Lib

/-! ## Cells and column maps -/

/-- What a cell holds. An integer column holds what the program bound to it, an `int`. -/
inductive QVariant where
  | null
  | int (v : Int)
  | text (s : QString)
  deriving DecidableEq, Repr

namespace QVariant

def toInt : QVariant → Int
  | null => 0
  | int v => v
  | text s => s.toInt.toInt

def toString : QVariant → QString
  | null => []
  | int v => QString.number (Int32.ofInt v)
  | text s => s

@[simp] theorem toInt_int (v : Int) : (int v).toInt = v := rfl
@[simp] theorem toString_text (s : QString) : (text s).toString = s := rfl

/-- A cell of a column that is not always written. -/
def ofInt (v : Option Int32) : QVariant := v.elim null fun v => int v.toInt
def ofText (s : Option QString) : QVariant := s.elim null text

end QVariant

section

variable {γ α : Type} [DecidableEq γ]

/-- One line of a column map, `COLUMNS_INT` or `COLUMNS_STR`. -/
inductive ColumnEntry (γ α : Type) where
  | int (column : γ) (setValue : Int → α → α)
  | str (column : γ) (setValue : QString → α → α)

def ColumnEntry.column : ColumnEntry γ α → γ
  | int column _ => column
  | str column _ => column

def ColumnEntry.setColumn : ColumnEntry γ α → QVariant → α → α
  | int _ setValue, v, cls => setValue v.toInt cls
  | str _ setValue, v, cls => setValue v.toString cls

/-- `AbsEntity::SetColumnsValue`: the cells of a record go to the setters of their columns. -/
def setColumnsValue (columns : List (ColumnEntry γ α)) (record : List γ) (value : γ → QVariant)
    (cls : α) : α :=
  record.foldl
    (fun cls c =>
      if value c = .null then cls
      else
        columns.foldl
          (fun cls entry => if entry.column = c then entry.setColumn (value c) cls else cls) cls)
    cls

/-- The row that `REPLACE INTO t (columns) VALUES (values)` stores. -/
def replaceRow (columns : List γ) (values : List QVariant) (c : γ) : QVariant :=
  ((columns.zip values).lookup c).getD .null

end

/-! ## Products -/

/-- The columns of `tb_orderBoy`; upper and lower case are the same. -/
inductive BoyColumn where
  | id | moDispatchNo | pcsMo | pcsItemNo | pcsItemName | pcsMouldNo
  | pcsDispatchQty | pcsSocketNum1 | pcsSocketNum2 | pcsFitMachineMin | pcsFitMachineMax
  | pcsBadQty | pcsBadData | pcsAdjNum
  | totalOkNum | curClassProductNo | curClassBadNo | curClassPolishNo | curClassInspectNo
  | adjDefCount | adjOKNum | adjEmptyMoldNum | adjDefList
  | no1 | no2 | str1 | str2
  deriving DecidableEq, Repr

namespace OrderBoy

/-- `OrderBoy::setPcsBadData`. -/
def setPcsBadData (s : QString) (boy : OrderBoy) : OrderBoy :=
  { boy with pcsBadData := if s.length > 0 then s.split.map QString.toInt else [] }

/-- `OrderBoy::setAdjDefCount`. -/
def setAdjDefCount (v : Int) (boy : OrderBoy) : OrderBoy := { boy with adjDefCount := .ofInt v }

/-- What is bound for `PCS_BadData`. Without counts the text stays the null string. -/
def badDataValue (list : List Int32) : QVariant :=
  if list = [] then .null else .text (QString.join list)

/-- `CREATE TABLE tb_orderBoy`, the columns that `SELECT *` returns. -/
def record : List BoyColumn :=
  [.id, .moDispatchNo, .pcsMo, .pcsItemNo, .pcsItemName, .pcsMouldNo, .pcsDispatchQty,
    .pcsSocketNum1, .pcsSocketNum2, .pcsFitMachineMin, .pcsFitMachineMax, .pcsBadQty, .pcsBadData,
    .pcsAdjNum, .totalOkNum, .curClassProductNo, .curClassBadNo, .curClassPolishNo,
    .curClassInspectNo, .adjDefCount, .adjOKNum, .adjEmptyMoldNum, .adjDefList, .no1, .no2, .str1,
    .str2]

/-- `BEGIN_COLUMNS_MAP(tb_orderBoy, OrderBoy)`. -/
def columnsMap : List (ColumnEntry BoyColumn OrderBoy) :=
  [.int .id fun v b => { b with id := v.toNat },
    .str .moDispatchNo fun s b => { b with moDispatchNo := s },
    .str .pcsMo fun s b => { b with pcsMo := s },
    .str .pcsItemNo fun s b => { b with pcsItemNo := s },
    .str .pcsItemName fun s b => { b with pcsItemName := s },
    .str .pcsMouldNo fun s b => { b with pcsMouldNo := s },
    .int .pcsDispatchQty fun v b => { b with pcsDispatchQty := .ofInt v },
    .int .pcsSocketNum1 fun v b => { b with pcsSocketNum1 := .ofInt v },
    .int .pcsSocketNum2 fun v b => { b with pcsSocketNum2 := .ofInt v },
    .int .pcsFitMachineMin fun v b => { b with pcsFitMachineMin := .ofInt v },
    .int .pcsFitMachineMax fun v b => { b with pcsFitMachineMax := .ofInt v },
    .int .pcsBadQty fun v b => { b with pcsBadQty := .ofInt v },
    .str .pcsBadData setPcsBadData,
    .int .pcsAdjNum fun v b => { b with pcsAdjNum := .ofInt v },
    .int .totalOkNum fun v b => { b with totalOkNum := .ofInt v },
    .int .curClassProductNo fun v b => { b with curClassProductNo := .ofInt v },
    .int .curClassBadNo fun v b => { b with curClassBadNo := .ofInt v },
    .int .curClassPolishNo fun v b => { b with curClassPolishNo := .ofInt v },
    .int .curClassInspectNo fun v b => { b with curClassInspectNo := .ofInt v },
    .int .adjDefCount setAdjDefCount,
    .int .adjOKNum fun v b => { b with adjOKNum := .ofInt v },
    .int .adjEmptyMoldNum fun v b => { b with adjEmptyMoldNum := .ofInt v },
    .str .adjDefList fun s b => { b with adjDefList := s },
    .str .str2 fun s b => { b with str2 := s }]

/-- The columns that the `REPLACE` of `OrderBoy::subimt` names behind `ID`. -/
def replaceColumns : List BoyColumn :=
  [.moDispatchNo, .pcsMo, .pcsItemNo, .pcsItemName, .pcsMouldNo, .pcsDispatchQty, .pcsSocketNum1,
    .pcsSocketNum2, .pcsFitMachineMin, .pcsFitMachineMax, .pcsBadQty, .pcsBadData, .pcsAdjNum,
    .totalOkNum, .curClassProductNo, .curClassBadNo, .curClassPolishNo, .curClassInspectNo,
    .adjOKNum, .adjEmptyMoldNum, .adjDefList, .str2]

/-- The values bound, in their order. -/
def bindValues (b : OrderBoy) : List QVariant :=
  [.text b.moDispatchNo, .text b.pcsMo, .text b.pcsItemNo, .text b.pcsItemName, .text b.pcsMouldNo,
    .int b.pcsDispatchQty.toInt, .int b.pcsSocketNum1.toInt, .int b.pcsSocketNum2.toInt,
    .int b.pcsFitMachineMin.toInt, .int b.pcsFitMachineMax.toInt, .int b.pcsBadQty.toInt,
    badDataValue b.pcsBadData, .int b.pcsAdjNum.toInt, .int b.totalOkNum.toInt,
    .int b.curClassProductNo.toInt, .int b.curClassBadNo.toInt, .int b.curClassPolishNo.toInt,
    .int b.curClassInspectNo.toInt, .int b.adjOKNum.toInt, .int b.adjEmptyMoldNum.toInt,
    .text b.adjDefList, .text b.str2]

end OrderBoy

/-- A row of `tb_orderBoy`. The columns that `subimt` names always hold a value, as in `boy`; those
it does not name may be `NULL`, and `ADJDefCount` is `0` for who reads a `NULL`. -/
structure BoyCells where
  boy : OrderBoy
  adjDefCount : Option Int32 := none
  no1 : Option Int32 := none
  no2 : Option Int32 := none
  str1 : Option QString := none
  count : boy.adjDefCount = adjDefCount.getD 0
  deriving DecidableEq

namespace BoyCells

/-- The cell of a column. -/
def value (r : BoyCells) : BoyColumn → QVariant
  | .id => .int r.boy.id
  | .moDispatchNo => .text r.boy.moDispatchNo
  | .pcsMo => .text r.boy.pcsMo
  | .pcsItemNo => .text r.boy.pcsItemNo
  | .pcsItemName => .text r.boy.pcsItemName
  | .pcsMouldNo => .text r.boy.pcsMouldNo
  | .pcsDispatchQty => .int r.boy.pcsDispatchQty.toInt
  | .pcsSocketNum1 => .int r.boy.pcsSocketNum1.toInt
  | .pcsSocketNum2 => .int r.boy.pcsSocketNum2.toInt
  | .pcsFitMachineMin => .int r.boy.pcsFitMachineMin.toInt
  | .pcsFitMachineMax => .int r.boy.pcsFitMachineMax.toInt
  | .pcsBadQty => .int r.boy.pcsBadQty.toInt
  | .pcsBadData => OrderBoy.badDataValue r.boy.pcsBadData
  | .pcsAdjNum => .int r.boy.pcsAdjNum.toInt
  | .totalOkNum => .int r.boy.totalOkNum.toInt
  | .curClassProductNo => .int r.boy.curClassProductNo.toInt
  | .curClassBadNo => .int r.boy.curClassBadNo.toInt
  | .curClassPolishNo => .int r.boy.curClassPolishNo.toInt
  | .curClassInspectNo => .int r.boy.curClassInspectNo.toInt
  | .adjDefCount => .ofInt r.adjDefCount
  | .adjOKNum => .int r.boy.adjOKNum.toInt
  | .adjEmptyMoldNum => .int r.boy.adjEmptyMoldNum.toInt
  | .adjDefList => .text r.boy.adjDefList
  | .no1 => .ofInt r.no1
  | .no2 => .ofInt r.no2
  | .str1 => .ofText r.str1
  | .str2 => .text r.boy.str2

def id (r : BoyCells) : Nat := r.boy.id

/-- `OrderBoy::read`, into a new object. -/
def read (r : BoyCells) : OrderBoy :=
  setColumnsValue OrderBoy.columnsMap OrderBoy.record r.value {}

/-- The row that `subimt` stores under a number. -/
def stored (n : Nat) (b : OrderBoy) : BoyCells where
  boy := { b with id := n, adjDefCount := 0 }
  count := rfl

/-- It has what the statement names and binds, and nothing else. -/
theorem value_stored (n : Nat) (b : OrderBoy) :
    (stored n b).value =
      replaceRow (.id :: OrderBoy.replaceColumns) (.int n :: b.bindValues) := by
  funext c
  cases c <;> rfl

/-- What one cell does to the object. -/
def setCell : BoyColumn → QVariant → OrderBoy → OrderBoy
  | .id, v, b => { b with id := v.toInt.toNat }
  | .moDispatchNo, v, b => { b with moDispatchNo := v.toString }
  | .pcsMo, v, b => { b with pcsMo := v.toString }
  | .pcsItemNo, v, b => { b with pcsItemNo := v.toString }
  | .pcsItemName, v, b => { b with pcsItemName := v.toString }
  | .pcsMouldNo, v, b => { b with pcsMouldNo := v.toString }
  | .pcsDispatchQty, v, b => { b with pcsDispatchQty := .ofInt v.toInt }
  | .pcsSocketNum1, v, b => { b with pcsSocketNum1 := .ofInt v.toInt }
  | .pcsSocketNum2, v, b => { b with pcsSocketNum2 := .ofInt v.toInt }
  | .pcsFitMachineMin, v, b => { b with pcsFitMachineMin := .ofInt v.toInt }
  | .pcsFitMachineMax, v, b => { b with pcsFitMachineMax := .ofInt v.toInt }
  | .pcsBadQty, v, b => { b with pcsBadQty := .ofInt v.toInt }
  | .pcsBadData, v, b => OrderBoy.setPcsBadData v.toString b
  | .pcsAdjNum, v, b => { b with pcsAdjNum := .ofInt v.toInt }
  | .totalOkNum, v, b => { b with totalOkNum := .ofInt v.toInt }
  | .curClassProductNo, v, b => { b with curClassProductNo := .ofInt v.toInt }
  | .curClassBadNo, v, b => { b with curClassBadNo := .ofInt v.toInt }
  | .curClassPolishNo, v, b => { b with curClassPolishNo := .ofInt v.toInt }
  | .curClassInspectNo, v, b => { b with curClassInspectNo := .ofInt v.toInt }
  | .adjDefCount, v, b => OrderBoy.setAdjDefCount v.toInt b
  | .adjOKNum, v, b => { b with adjOKNum := .ofInt v.toInt }
  | .adjEmptyMoldNum, v, b => { b with adjEmptyMoldNum := .ofInt v.toInt }
  | .adjDefList, v, b => { b with adjDefList := v.toString }
  | .str2, v, b => { b with str2 := v.toString }
  | .no1, _, b | .no2, _, b | .str1, _, b => b

theorem foldl_columnsMap (c : BoyColumn) (v : QVariant) (b : OrderBoy) :
    OrderBoy.columnsMap.foldl
      (fun b entry => if entry.column = c then entry.setColumn v b else b) b = setCell c v b := by
  cases c <;> rfl

/-- The counts come back from their text, and no counts from the null string. -/
theorem setCell_badData (list : List Int32) (b : OrderBoy) :
    (if OrderBoy.badDataValue list = .null then b
      else OrderBoy.setPcsBadData (OrderBoy.badDataValue list).toString b) =
      { b with pcsBadData := if list = [] then b.pcsBadData else list } := by
  by_cases hnil : list = []
  · subst hnil
    rfl
  · have hpos : (QString.join list).length > 0 := List.length_pos_of_ne_nil (QString.join_ne_nil hnil)
    rw [OrderBoy.badDataValue, if_neg hnil, if_neg (by simp), if_neg hnil]
    show OrderBoy.setPcsBadData (QString.join list) b = _
    rw [OrderBoy.setPcsBadData, if_pos hpos, QString.map_toInt_split_join hnil]

theorem setCell_adjDefCount (v : Option Int32) (b : OrderBoy) :
    (if QVariant.ofInt v = .null then b
      else OrderBoy.setAdjDefCount (QVariant.ofInt v).toInt b) =
      { b with adjDefCount := v.getD b.adjDefCount } := by
  cases v with
  | none => rfl
  | some v => simp [QVariant.ofInt, OrderBoy.setAdjDefCount]

/-- What is read from a row is the object it holds. -/
theorem read_eq (r : BoyCells) : r.read = r.boy := by
  have hcount := r.count
  simp only [read, setColumnsValue, foldl_columnsMap, OrderBoy.record, List.foldl_cons,
    List.foldl_nil, value, setCell, reduceCtorEq, if_false, ite_self, setCell_badData,
    setCell_adjDefCount, QVariant.toInt_int, QVariant.toString_text, Int32.ofInt_toInt, Int.toNat_natCast]
  have hlist : (if r.boy.pcsBadData = [] then [] else r.boy.pcsBadData) = r.boy.pcsBadData := by
    split
    · next hnil => exact hnil.symm
    · rfl
  rw [hlist, ← hcount]

end BoyCells

/-! ## Orders -/

/-- The columns of `tb_order`. -/
inductive OrderColumn where
  | moDispatchNo | moDispatchPrior | moProcCode | moProcName | moStaCode | moStaName
  | moStandCycle | moTotalNum | moMultiNum | moBadTypeNo | moBadReasonNum | mainOrderFlag
  | no1 | no2 | str1 | str2
  deriving DecidableEq, Repr

namespace Order

/-- `CREATE TABLE tb_order`. -/
def record : List OrderColumn :=
  [.moDispatchNo, .moDispatchPrior, .moProcCode, .moProcName, .moStaCode, .moStaName, .moStandCycle,
    .moTotalNum, .moMultiNum, .moBadTypeNo, .moBadReasonNum, .mainOrderFlag, .no1, .no2, .str1,
    .str2]

/-- `BEGIN_COLUMNS_MAP(tb_order, Order)`. -/
def columnsMap : List (ColumnEntry OrderColumn Order) :=
  [.str .moDispatchNo fun s o => { o with moDispatchNo := s },
    .str .moDispatchPrior fun s o => { o with moDispatchPrior := s },
    .str .moProcCode fun s o => { o with moProcCode := s },
    .str .moProcName fun s o => { o with moProcName := s },
    .str .moStaCode fun s o => { o with moStaCode := s },
    .str .moStaName fun s o => { o with moStaName := s },
    .int .moStandCycle fun v o => { o with moStandCycle := .ofInt v },
    .int .moTotalNum fun v o => { o with moTotalNum := .ofInt v },
    .int .moMultiNum fun v o => { o with moMultiNum := .ofInt v },
    .int .moBadTypeNo fun v o => { o with moBadTypeNo := .ofInt v },
    .int .moBadReasonNum fun v o => { o with moBadReasonNum := .ofInt v },
    .int .mainOrderFlag fun v o => { o with mainOrderFlag := v }]

/-- The columns that the `REPLACE` of `Order::subimt` names. -/
def replaceColumns : List OrderColumn :=
  [.moDispatchNo, .moDispatchPrior, .moProcCode, .moProcName, .moStaCode, .moStaName, .moStandCycle,
    .moTotalNum, .moMultiNum, .moBadTypeNo, .moBadReasonNum, .mainOrderFlag]

/-- The values bound, in their order. -/
def bindValues (o : Order) : List QVariant :=
  [.text o.moDispatchNo, .text o.moDispatchPrior, .text o.moProcCode, .text o.moProcName,
    .text o.moStaCode, .text o.moStaName, .int o.moStandCycle.toInt, .int o.moTotalNum.toInt,
    .int o.moMultiNum.toInt, .int o.moBadTypeNo.toInt, .int o.moBadReasonNum.toInt,
    .int o.mainOrderFlag]

end Order

/-- A row of `tb_order`, with the columns that `subimt` does not name. -/
structure OrderCells where
  row : OrderRow
  no1 : Option Int32 := none
  no2 : Option Int32 := none
  str1 : Option QString := none
  str2 : Option QString := none
  deriving DecidableEq

namespace OrderCells

def value (r : OrderCells) : OrderColumn → QVariant
  | .moDispatchNo => .text r.row.moDispatchNo
  | .moDispatchPrior => .text r.row.moDispatchPrior
  | .moProcCode => .text r.row.moProcCode
  | .moProcName => .text r.row.moProcName
  | .moStaCode => .text r.row.moStaCode
  | .moStaName => .text r.row.moStaName
  | .moStandCycle => .int r.row.moStandCycle.toInt
  | .moTotalNum => .int r.row.moTotalNum.toInt
  | .moMultiNum => .int r.row.moMultiNum.toInt
  | .moBadTypeNo => .int r.row.moBadTypeNo.toInt
  | .moBadReasonNum => .int r.row.moBadReasonNum.toInt
  | .mainOrderFlag => .int r.row.mainOrderFlag
  | .no1 => .ofInt r.no1
  | .no2 => .ofInt r.no2
  | .str1 => .ofText r.str1
  | .str2 => .ofText r.str2

def dispatchNo (r : OrderCells) : QString := r.row.moDispatchNo

/-- `Order::read`, into a new object. -/
def read (r : OrderCells) : Order := setColumnsValue Order.columnsMap Order.record r.value {}

/-- The row that `subimt` stores. -/
def stored (o : Order) : OrderCells := { row := o.toOrderRow }

theorem value_stored (o : Order) :
    (stored o).value = replaceRow Order.replaceColumns o.bindValues := by
  funext c
  cases c <;> rfl

/-- What one cell does to the object. -/
def setCell : OrderColumn → QVariant → Order → Order
  | .moDispatchNo, v, o => { o with moDispatchNo := v.toString }
  | .moDispatchPrior, v, o => { o with moDispatchPrior := v.toString }
  | .moProcCode, v, o => { o with moProcCode := v.toString }
  | .moProcName, v, o => { o with moProcName := v.toString }
  | .moStaCode, v, o => { o with moStaCode := v.toString }
  | .moStaName, v, o => { o with moStaName := v.toString }
  | .moStandCycle, v, o => { o with moStandCycle := .ofInt v.toInt }
  | .moTotalNum, v, o => { o with moTotalNum := .ofInt v.toInt }
  | .moMultiNum, v, o => { o with moMultiNum := .ofInt v.toInt }
  | .moBadTypeNo, v, o => { o with moBadTypeNo := .ofInt v.toInt }
  | .moBadReasonNum, v, o => { o with moBadReasonNum := .ofInt v.toInt }
  | .mainOrderFlag, v, o => { o with mainOrderFlag := v.toInt }
  | .no1, _, o | .no2, _, o | .str1, _, o | .str2, _, o => o

theorem foldl_columnsMap (c : OrderColumn) (v : QVariant) (o : Order) :
    Order.columnsMap.foldl
      (fun o entry => if entry.column = c then entry.setColumn v o else o) o = setCell c v o := by
  cases c <;> rfl

theorem read_eq (r : OrderCells) : r.read = { toOrderRow := r.row } := by
  simp only [read, setColumnsValue, foldl_columnsMap, Order.record, List.foldl_cons,
    List.foldl_nil, value, setCell, reduceCtorEq, if_false, ite_self, QVariant.toInt_int,
    QVariant.toString_text, Int32.ofInt_toInt]

end OrderCells

/-! ## The two tables -/

structure OrderTables where
  order : Table OrderCells.dispatchNo := Table.empty
  orderBoy : AutoTable BoyCells.id := AutoTable.empty

/-- A text as it stands between quotes in a statement; a quote in it would end it there. -/
def literal (s : QString) : Option QString := if 0x27 ∈ s then none else some s

namespace OrderTables

/-- The row of a product of an order. -/
def sameBoy (no item : QString) (r : BoyCells) : Bool :=
  r.boy.moDispatchNo == no && r.boy.pcsItemNo == item

/-- `OrderBoy::subimt`: the row found keeps its `ID`, a new one gets the next. -/
def subimtBoy (db : OrderTables) (boy : OrderBoy) : OrderTables :=
  { db with
    orderBoy := db.orderBoy.save (sameBoy boy.moDispatchNo boy.pcsItemNo)
      (fun n => BoyCells.stored n boy) (fun _ => rfl) }

/-- `Order::subimt`. -/
def subimtOrder (db : OrderTables) (order : Order) : OrderTables :=
  order.orderBoyList.foldl
    (fun db boy => db.subimtBoy { boy with moDispatchNo := order.moDispatchNo })
    { db with order := db.order.replace (OrderCells.stored order) }

/-- `Order::query(DispatchNo)`; `none` where the statement finds no row, or is not the one meant. -/
def query (db : OrderTables) (no : QString) : Option Order := do
  let no ← literal no
  let row ← db.order.lookup no
  return row.read

/-- The rows of the products of an order, in the order of their `ID`. -/
def boys (db : OrderTables) (no : QString) : List BoyCells :=
  db.orderBoy.rows.filter fun r => r.boy.moDispatchNo == no

/-- `Order::getBoy`. -/
def getBoy (db : OrderTables) (order : Order) : Order :=
  match literal order.moDispatchNo with
  | none => order
  | some no =>
    { order with orderBoyList := order.orderBoyList ++ (db.boys no).map BoyCells.read }

/-! ## What a submit does to the tables -/

variable {db : OrderTables} {order : Order} {no : QString}

/-- What tells the rows of `tb_orderBoy` apart for `subimt`. -/
def tag (r : BoyCells) : QString × QString := (r.boy.moDispatchNo, r.boy.pcsItemNo)

/-- The same for a product of an order, and the row that is stored for it. -/
def boyTag (no : QString) (b : OrderBoy) : QString × QString := (no, b.pcsItemNo)
def boyRow (no : QString) (b : OrderBoy) (n : Nat) : BoyCells :=
  BoyCells.stored n { b with moDispatchNo := no }

theorem sameBoy_iff (no : QString) (b : OrderBoy) (r : BoyCells) :
    sameBoy no b.pcsItemNo r = true ↔ tag r = boyTag no b := by
  simp [sameBoy, tag, boyTag, Prod.ext_iff]

theorem tag_boyRow (no : QString) (b : OrderBoy) (n : Nat) : tag (boyRow no b n) = boyTag no b := rfl
theorem id_boyRow (no : QString) (b : OrderBoy) (n : Nat) : (boyRow no b n).id = n := rfl

theorem order_subimtOrder (db : OrderTables) (order : Order) :
    (db.subimtOrder order).order = db.order.replace (OrderCells.stored order) :=
  foldl_frame OrderTables.order (fun _ _ => by rfl) _ _

theorem orderBoy_subimtOrder (db : OrderTables) (order : Order) :
    (db.subimtOrder order).orderBoy =
      db.orderBoy.saveAll (fun b => sameBoy order.moDispatchNo b.pcsItemNo)
        (boyRow order.moDispatchNo) (id_boyRow order.moDispatchNo) order.orderBoyList :=
  (List.foldl_hom OrderTables.orderBoy (fun _ _ => rfl)).symm

/-- The order is found after it was submitted. -/
theorem query_subimtOrder (hquote : 0x27 ∉ order.moDispatchNo) :
    (db.subimtOrder order).query order.moDispatchNo =
      some { toOrderRow := order.toOrderRow } := by
  have hlookup : (db.subimtOrder order).order.lookup order.moDispatchNo =
      some (OrderCells.stored order) := by
    rw [order_subimtOrder]
    exact Table.lookup_eq_some.mpr ⟨Table.mem_replace.mpr (.inr rfl), rfl⟩
  rw [query, literal, if_neg hquote]
  show (OrderTables.order _).lookup _ >>= _ = _
  rw [hlookup]
  exact congrArg some (OrderCells.read_eq _)

/-- The products of an order that has none yet are read from the rows. -/
theorem getBoy_eq (db : OrderTables) (order : Order) (hquote : 0x27 ∉ order.moDispatchNo)
    (hnil : order.orderBoyList = []) :
    db.getBoy order =
      { order with orderBoyList := (db.boys order.moDispatchNo).map BoyCells.boy } := by
  have hread : BoyCells.read = BoyCells.boy := funext BoyCells.read_eq
  rw [getBoy, literal, if_neg hquote, hnil, hread]
  rfl

/-! ## An order that comes back -/

/-- The rows of the order that are there already are rows of its products, one for each at most. -/
structure NoOther (db : OrderTables) (order : Order) : Prop where
  known : ∀ r ∈ db.boys order.moDispatchNo,
    r.boy.pcsItemNo ∈ order.orderBoyList.map OrderBoy.pcsItemNo
  nodup : ((db.boys order.moDispatchNo).map fun r => r.boy.pcsItemNo).Nodup

/-- After the submit the order is read as it was submitted: the `ID`s apart, it has the same
products, and where no rows were there before, in the same places. -/
def Restored (db : OrderTables) (order : Order) : Prop :=
  ∃ o, (db.subimtOrder order).query order.moDispatchNo = some o ∧
    o.toOrderRow = order.toOrderRow ∧
    (((db.subimtOrder order).getBoy o).orderBoyList.map fun b => { b with id := 0 }).Perm
      (order.orderBoyList.map fun b => { b with id := 0 }) ∧
    (db.boys order.moDispatchNo = [] →
      ((db.subimtOrder order).getBoy o).orderBoyList.map (fun b => { b with id := 0 }) =
        order.orderBoyList.map fun b => { b with id := 0 })

/-- What is kept of a product, without its `ID`. -/
def kept (no : QString) (b : OrderBoy) : OrderBoy :=
  { b with id := 0, moDispatchNo := no, adjDefCount := 0 }

theorem mem_boys {r : BoyCells} :
    r ∈ db.boys no ↔ r ∈ db.orderBoy.rows ∧ r.boy.moDispatchNo = no := by
  simp [boys]

/-- Rows of the products of an order, under whatever numbers. -/
theorem stored_rows {l : List OrderBoy} {l' : List BoyCells}
    (h : List.Forall₂ (fun b r => ∃ n, r = boyRow no b n) l l') :
    l'.filter (fun r => r.boy.moDispatchNo == no) = l' ∧
      l'.map (fun r => { r.boy with id := 0 }) = l.map (kept no) := by
  induction h with
  | nil => exact ⟨rfl, rfl⟩
  | cons hr _ ih =>
    obtain ⟨n, rfl⟩ := hr
    rw [List.filter_cons_of_pos (by simp [boyRow, BoyCells.stored]), ih.1, List.map_cons, List.map_cons,
      ih.2]
    exact ⟨rfl, rfl⟩

theorem nodup_tags (hitems : (order.orderBoyList.map OrderBoy.pcsItemNo).Nodup) :
    (order.orderBoyList.map (boyTag order.moDispatchNo)).Nodup := by
  have hpair := hitems.map (f := Prod.mk order.moDispatchNo)
    fun _ _ h => (Prod.mk.inj h).2
  rwa [List.map_map] at hpair

/-- A number within an order comes once if the rows of the order have different ones. -/
theorem once_of_nodup (h : ((db.boys no).map fun r => r.boy.pcsItemNo).Nodup) (item : QString) :
    db.orderBoy.Once tag (no, item) := by
  intro r hr s hs hrk hsk
  obtain ⟨hrno, hritem⟩ := Prod.mk.inj hrk
  obtain ⟨hsno, hsitem⟩ := Prod.mk.inj hsk
  exact List.inj_on_of_nodup_map h (mem_boys.mpr ⟨hr, hrno⟩) (mem_boys.mpr ⟨hs, hsno⟩)
    (hritem.trans hsitem.symm)

theorem perm_boys_subimtOrder (hitems : (order.orderBoyList.map OrderBoy.pcsItemNo).Nodup)
    (hother : NoOther db order) :
    (((db.subimtOrder order).boys order.moDispatchNo).map fun r => { r.boy with id := 0 }).Perm
      (order.orderBoyList.map (kept order.moDispatchNo)) := by
  obtain ⟨l', rest, hl', hrest, hperm⟩ := AutoTable.perm_saveAll
    (id_boyRow order.moDispatchNo) (sameBoy_iff order.moDispatchNo) (tag_boyRow order.moDispatchNo)
    (nodup_tags hitems) (fun b _ => once_of_nodup hother.nodup b.pcsItemNo)
  obtain ⟨hfilter, hmap⟩ := stored_rows hl'
  rw [← orderBoy_subimtOrder] at hperm
  have hboys : ((db.subimtOrder order).boys order.moDispatchNo).Perm l' := by
    refine (hperm.filter fun r => r.boy.moDispatchNo == order.moDispatchNo).trans
      (List.Perm.of_eq ?_)
    rw [List.filter_append, hfilter, List.append_right_eq_self, List.filter_eq_nil_iff]
    -- no row of the order is left but those of the products
    intro r hr hno
    obtain ⟨hr, hnew⟩ := (hrest r).mp hr
    have hno : r.boy.moDispatchNo = order.moDispatchNo := by simpa using hno
    obtain ⟨b, hb, hitem⟩ := List.mem_map.mp (hother.known r (mem_boys.mpr ⟨hr, hno⟩))
    exact hnew (List.mem_map.mpr ⟨b, hb, Prod.ext hno.symm hitem⟩)
  rw [← hmap]
  exact hboys.map _

theorem boys_subimtOrder_of_nil (hitems : (order.orderBoyList.map OrderBoy.pcsItemNo).Nodup)
    (hnil : db.boys order.moDispatchNo = []) :
    ((db.subimtOrder order).boys order.moDispatchNo).map (fun r => { r.boy with id := 0 }) =
      order.orderBoyList.map (kept order.moDispatchNo) := by
  have hnew : ∀ r ∈ db.orderBoy.rows,
      tag r ∉ order.orderBoyList.map (boyTag order.moDispatchNo) := by
    intro r hr hmem
    obtain ⟨b, -, heq⟩ := List.mem_map.mp hmem
    have hboy : r ∈ db.boys order.moDispatchNo := mem_boys.mpr ⟨hr, (Prod.mk.inj heq).1.symm⟩
    rw [hnil] at hboy
    cases hboy
  obtain ⟨l', hl', hrows⟩ := AutoTable.rows_saveAll_of_new
    (id_boyRow order.moDispatchNo) (sameBoy_iff order.moDispatchNo) (tag_boyRow order.moDispatchNo)
    (nodup_tags hitems) hnew
  obtain ⟨hfilter, hmap⟩ := stored_rows hl'
  have hboys : (db.subimtOrder order).boys order.moDispatchNo = l' := by
    rw [boys, orderBoy_subimtOrder, hrows, List.filter_append, hfilter]
    show db.boys order.moDispatchNo ++ l' = l'
    rw [hnil, List.nil_append]
  rw [hboys, hmap]

/-- The count of defects of the adjustment is the one thing that is lost; the number of the order is
given to every product. -/
theorem restored_iff (hitems : (order.orderBoyList.map OrderBoy.pcsItemNo).Nodup)
    (hquote : 0x27 ∉ order.moDispatchNo) (hother : NoOther db order) :
    Restored db order ↔
      ∀ b ∈ order.orderBoyList, b.moDispatchNo = order.moDispatchNo ∧ b.adjDefCount = 0 := by
  have hback : ((db.subimtOrder order).getBoy { toOrderRow := order.toOrderRow }).orderBoyList.map
      (fun b => ({ b with id := 0 } : OrderBoy)) =
        ((db.subimtOrder order).boys order.moDispatchNo).map fun r => { r.boy with id := 0 } := by
    rw [getBoy_eq _ { toOrderRow := order.toOrderRow } hquote rfl]
    exact List.map_map
  have hperm := perm_boys_subimtOrder hitems hother
  constructor
  · rintro ⟨o, ho, -, hsame, -⟩ b hb
    rw [query_subimtOrder hquote] at ho
    cases ho
    rw [hback] at hsame
    -- every product sent is one that was kept
    have hmem := (hperm.symm.trans hsame).mem_iff.mpr (List.mem_map_of_mem hb)
    obtain ⟨c, -, heq⟩ := List.mem_map.mp hmem
    exact ⟨(congrArg OrderBoy.moDispatchNo heq).symm, (congrArg OrderBoy.adjDefCount heq).symm⟩
  · intro h
    have hkept : order.orderBoyList.map (kept order.moDispatchNo) =
        order.orderBoyList.map fun b => { b with id := 0 } := by
      refine List.map_congr_left fun b hb => ?_
      obtain ⟨hno, hcount⟩ := h b hb
      rw [kept, ← hno, ← hcount]
    refine ⟨_, query_subimtOrder hquote, rfl, ?_, fun hnil => ?_⟩
    · rw [hback, ← hkept]
      exact hperm
    · rw [hback, ← hkept]
      exact boys_subimtOrder_of_nil hitems hnil

/-! ## An order that is stored again -/

/-- The order that is read, with its products, leaves all rows as they are when it is submitted. The
row of an order that is replaced may come to stand in another place. -/
def Unchanged (db : OrderTables) (no : QString) : Prop :=
  ∀ o, db.query no = some o →
    (db.subimtOrder (db.getBoy o)).order.rows.Perm db.order.rows ∧
      (db.subimtOrder (db.getBoy o)).orderBoy.rows = db.orderBoy.rows

end OrderTables

/-- The columns that `subimt` does not name are `NULL`. -/
structure OrderCells.Bare (r : OrderCells) : Prop where
  no1 : r.no1 = none
  no2 : r.no2 = none
  str1 : r.str1 = none
  str2 : r.str2 = none

structure BoyCells.Bare (r : BoyCells) : Prop where
  adjDefCount : r.adjDefCount = none
  no1 : r.no1 = none
  no2 : r.no2 = none
  str1 : r.str1 = none

theorem OrderCells.stored_eq_iff {r : OrderCells} : stored { toOrderRow := r.row } = r ↔ r.Bare := by
  constructor
  · intro h
    rw [← h]
    exact ⟨rfl, rfl, rfl, rfl⟩
  · rintro ⟨h1, h2, h3, h4⟩
    cases r
    cases h1
    cases h2
    cases h3
    cases h4
    rfl

theorem BoyCells.stored_eq_iff {r : BoyCells} :
    stored r.boy.id { r.boy with moDispatchNo := r.boy.moDispatchNo } = r ↔ r.Bare := by
  constructor
  · intro h
    rw [← h]
    exact ⟨rfl, rfl, rfl, rfl⟩
  · rintro ⟨h1, h2, h3, h4⟩
    obtain ⟨boy, adj, no1, no2, str1, hcount⟩ := r
    cases h1
    cases h2
    cases h3
    cases h4
    have hboy : { boy with adjDefCount := 0 } = boy := by
      rw [show (0 : Int32) = boy.adjDefCount from hcount.symm]
    simp only [stored, hboy]

namespace OrderTables

variable {db : OrderTables} {order : Order} {no : QString}

/-- Storing a row in place of the one found changes the rows unless it is the same. -/
theorem perm_replace_iff {row new : OrderCells} (hrow : row ∈ db.order.rows)
    (hkey : new.dispatchNo = row.dispatchNo) :
    (db.order.replace new).rows.Perm db.order.rows ↔ new = row := by
  have hold := Table.perm_cons_filter hrow
  have hnew : (db.order.replace new).rows.Perm
      (new :: db.order.rows.filter fun s => s.dispatchNo ≠ row.dispatchNo) := by
    rw [← hkey]
    exact List.perm_append_comm
  constructor
  · intro h
    have hcons := hnew.symm.trans (h.trans hold)
    exact List.singleton_perm_singleton.mp
      ((List.perm_append_right_iff _).mp (show ([new] ++ _).Perm ([row] ++ _) from hcons))
  · rintro rfl
    exact hnew.trans hold.symm

/-- The products that are stored again under their own numbers. -/
theorem saved_again_iff (hitems : ((db.boys no).map fun r => r.boy.pcsItemNo).Nodup)
    (horder : order.moDispatchNo = no) (hboys : order.orderBoyList = (db.boys no).map BoyCells.boy) :
    (db.subimtOrder order).orderBoy.rows = db.orderBoy.rows ↔ ∀ r ∈ db.boys no, r.Bare := by
  subst horder
  have hnodup : (order.orderBoyList.map OrderBoy.pcsItemNo).Nodup := by
    rw [hboys, List.map_map]
    exact hitems
  rw [orderBoy_subimtOrder]
  constructor
  · intro hrows r hr
    obtain ⟨n, hn⟩ := AutoTable.exists_mem_saveAll (t := db.orderBoy)
      (id_boyRow order.moDispatchNo) (sameBoy_iff order.moDispatchNo)
      (tag_boyRow order.moDispatchNo) (nodup_tags hnodup) r.boy (by rw [hboys]; exact List.mem_map_of_mem hr)
    rw [hrows] at hn
    -- the row that was stored is one of the old ones, and there is one of that number only
    have hsame := List.inj_on_of_nodup_map hitems (mem_boys.mpr ⟨hn, rfl⟩) hr rfl
    rw [← hsame]
    exact ⟨rfl, rfl, rfl, rfl⟩
  · intro hbare
    refine congrArg AutoTable.rows (AutoTable.saveAll_of_mem _ (sameBoy_iff order.moDispatchNo)
      (tag_boyRow order.moDispatchNo) fun b hb => ?_)
    rw [hboys] at hb
    obtain ⟨r, hr, rfl⟩ := List.mem_map.mp hb
    obtain ⟨hrow, hno⟩ := mem_boys.mp hr
    refine ⟨once_of_nodup hitems _, r, hrow, ?_⟩
    rw [← hno]
    exact BoyCells.stored_eq_iff.mpr (hbare r hr)

theorem unchanged_iff (hquote : 0x27 ∉ no)
    (hitems : ((db.boys no).map fun r => r.boy.pcsItemNo).Nodup) :
    Unchanged db no ↔
      ∀ row, db.order.lookup no = some row → row.Bare ∧ ∀ r ∈ db.boys no, r.Bare := by
  have hquery : ∀ row, db.order.lookup no = some row →
      db.query no = some { toOrderRow := row.row } := by
    intro row hrow
    rw [query, literal, if_neg hquote]
    show db.order.lookup no >>= _ = _
    rw [hrow]
    exact congrArg some (OrderCells.read_eq row)
  -- what storing again does, if there is an order
  have hagain : ∀ row, db.order.lookup no = some row →
      ((db.subimtOrder (db.getBoy { toOrderRow := row.row })).order.rows.Perm db.order.rows ∧
        (db.subimtOrder (db.getBoy { toOrderRow := row.row })).orderBoy.rows = db.orderBoy.rows ↔
          row.Bare ∧ ∀ r ∈ db.boys no, r.Bare) := by
    intro row hrow
    obtain ⟨hmem, hno⟩ := Table.lookup_eq_some.mp hrow
    have hno : row.row.moDispatchNo = no := hno
    have hgetBoy := getBoy_eq db { toOrderRow := row.row } (by rw [hno]; exact hquote) rfl
    rw [hgetBoy]
    refine and_congr ?_ (saved_again_iff hitems hno (by rw [← hno]))
    rw [order_subimtOrder]
    exact (perm_replace_iff hmem (by rfl)).trans OrderCells.stored_eq_iff
  constructor
  · intro h row hrow
    exact (hagain row hrow).mp (h _ (hquery row hrow))
  · intro h o ho
    cases hlookup : db.order.lookup no with
    | none =>
      rw [query, literal, if_neg hquote] at ho
      change db.order.lookup no >>= _ = _ at ho
      rw [hlookup] at ho
      cases ho
    | some row =>
      rw [hquery row hlookup] at ho
      cases ho
      exact (hagain row hlookup).mpr (h row hlookup)

/-! ## The rows as they are read -/

/-- The tables of `Mes.Database`. -/
def toDB (db : OrderTables) : DB where
  order := db.order.map OrderCells.row fun _ => rfl
  orderBoy := db.orderBoy.map BoyCells.boy fun _ => rfl

theorem toDB_subimtBoy (db : OrderTables) (boy : OrderBoy) :
    (db.subimtBoy boy).toDB = db.toDB.subimtBoy boy := by
  show DB.mk _ _ _ _ _ _ = DB.mk _ _ _ _ _ _
  congr 1
  exact AutoTable.map_save (fun _ => rfl) fun _ => rfl

theorem toDB_subimtOrder (db : OrderTables) (order : Order) :
    (db.subimtOrder order).toDB = db.toDB.subimtOrder order := by
  have hreplace : ({ db with order := db.order.replace (OrderCells.stored order) } : OrderTables).toDB =
      { db.toDB with order := db.toDB.order.replace order.toOrderRow } := by
    show DB.mk _ _ _ _ _ _ = DB.mk _ _ _ _ _ _
    congr 1
    exact Table.map_replace
  rw [DB.subimtOrder, ← hreplace]
  exact (List.foldl_hom toDB
    fun db (b : OrderBoy) => (toDB_subimtBoy db { b with moDispatchNo := order.moDispatchNo }).symm
    ).symm

theorem toDB_query (db : OrderTables) (hquote : 0x27 ∉ no) : db.query no = db.toDB.queryNo no := by
  have hlookup : db.toDB.order.lookup no = (db.order.lookup no).map OrderCells.row :=
    Table.lookup_map _ _ (fun _ => rfl) no
  rw [query, literal, if_neg hquote, DB.queryNo, hlookup]
  show (db.order.lookup no).bind (fun row => some row.read) = _
  cases db.order.lookup no with
  | none => rfl
  | some row => exact congrArg some (OrderCells.read_eq row)

theorem toDB_getBoy (db : OrderTables) (hquote : 0x27 ∉ order.moDispatchNo) :
    db.getBoy order = db.toDB.getBoy order := by
  have hread : BoyCells.read = BoyCells.boy := funext BoyCells.read_eq
  have hboys : db.toDB.boys order.moDispatchNo = (db.boys order.moDispatchNo).map BoyCells.boy := by
    show List.filter _ (db.orderBoy.rows.map BoyCells.boy) = _
    rw [List.filter_map]
    rfl
  rw [getBoy, literal, if_neg hquote, DB.getBoy, hboys, hread]

/-! ## Both -/

/-- A submitted order is read as it was exactly if its products carry its number and no defects of
the adjustment; an order read and submitted again leaves the tables alone exactly if its rows are
`NULL` where `subimt` names no column. -/
theorem persisted_iff (db : OrderTables) :
    (∀ order : Order, (order.orderBoyList.map OrderBoy.pcsItemNo).Nodup →
      0x27 ∉ order.moDispatchNo → NoOther db order →
        (Restored db order ↔
          ∀ b ∈ order.orderBoyList, b.moDispatchNo = order.moDispatchNo ∧ b.adjDefCount = 0)) ∧
    ∀ no : QString, 0x27 ∉ no → ((db.boys no).map fun r => r.boy.pcsItemNo).Nodup →
      (Unchanged db no ↔
        ∀ row, db.order.lookup no = some row → row.Bare ∧ ∀ r ∈ db.boys no, r.Bare) := by
  constructor
  · intro order hitems hquote hother
    exact restored_iff hitems hquote hother
  · intro no hquote hitems
    exact unchanged_iff hquote hitems

/-- An order with one product that has this count of defects of the adjustment. -/
def oneBoy (adjDefCount : Int32) : Order :=
  { moDispatchNo := text "D1"
    orderBoyList := [{ moDispatchNo := text "D1", pcsItemNo := text "A", adjDefCount }] }

theorem persisted_one :
    Restored {} (oneBoy 0) ∧ Unchanged (({} : OrderTables).subimtOrder (oneBoy 0)) (text "D1") := by
  constructor
  · refine ((persisted_iff {}).1 (oneBoy 0) (by decide) (by decide) ⟨?_, by decide⟩).mpr (by decide)
    exact List.forall_mem_nil _
  · refine ((persisted_iff _).2 (text "D1") (by decide) (by decide)).mpr fun row hrow => ?_
    cases hrow
    refine ⟨⟨rfl, rfl, rfl, rfl⟩, fun r hr => ?_⟩
    rw [List.mem_singleton.mp hr]
    exact ⟨rfl, rfl, rfl, rfl⟩

/-- The count is gone after the submit. -/
theorem not_restored_count :
    ¬∀ (db : OrderTables) (order : Order), (order.orderBoyList.map OrderBoy.pcsItemNo).Nodup →
      0x27 ∉ order.moDispatchNo → NoOther db order → Restored db order := by
  intro h
  have hother : NoOther {} (oneBoy 5) := ⟨List.forall_mem_nil _, by decide⟩
  have hcount := (restored_iff (by decide) (by decide) hother).mp
    (h {} (oneBoy 5) (by decide) (by decide) hother)
  exact absurd (hcount _ List.mem_cons_self).2 (by decide)

end OrderTables

end ProgrammingPath.Mes
