import ProgrammingPath.Lib.Table
import ProgrammingPath.Qt.ByteArray

/-!
# The local database (`Sqlite/`)

The rows of the tables the terminal keeps: orders (`tb_order`) with their products
(`tb_orderBoy`) and materials (`tb_Material`), the notes waiting for upload (`tb_Notebook`) and the
mould records waiting for upload (`tb_Producted`, with its backup). SQLite is taken to execute the
statements as written; the columns of type `int` are 32-bit, as the program reads and binds them.

`MainOrder_FLAG`, the place of an order in the sequence, is an unbounded integer here: it never
exceeds the number of rows.
-/

namespace ProgrammingPath.Mes

open ProgrammingPath.Qt ProgrammingPath.Lib

/-- One product of an order (`entity::OrderBoy`, a row of `tb_orderBoy`). `PCS_BadData` is stored
as a comma-separated text and read back as the same list. -/
structure OrderBoy where
  id : Nat := 0
  moDispatchNo : QString := []
  pcsMo : QString := []
  pcsItemNo : QString := []
  pcsItemName : QString := []
  pcsMouldNo : QString := []
  pcsDispatchQty : Int32 := 0
  pcsSocketNum1 : Int32 := 0
  pcsSocketNum2 : Int32 := 0
  pcsFitMachineMin : Int32 := 0
  pcsFitMachineMax : Int32 := 0
  pcsBadQty : Int32 := 0
  pcsBadData : List Int32 := []
  pcsAdjNum : Int32 := 0
  totalOkNum : Int32 := 0
  curClassProductNo : Int32 := 0
  curClassBadNo : Int32 := 0
  curClassPolishNo : Int32 := 0
  curClassInspectNo : Int32 := 0
  adjDefCount : Int32 := 0
  adjOKNum : Int32 := 0
  adjEmptyMoldNum : Int32 := 0
  adjDefList : QString := []
  str2 : QString := []
  deriving DecidableEq, Repr

/-- A row of `tb_order`. -/
structure OrderRow where
  moDispatchNo : QString := []
  moDispatchPrior : QString := []
  moProcCode : QString := []
  moProcName : QString := []
  moStaCode : QString := []
  moStaName : QString := []
  moStandCycle : Int32 := 0
  moTotalNum : Int32 := 0
  moMultiNum : Int32 := 0
  moBadTypeNo : Int32 := 0
  moBadReasonNum : Int32 := 0
  mainOrderFlag : Int := 0
  deriving DecidableEq, Repr

/-- An order in memory (`entity::Order`): its columns and the products read so far. The default
value is what `Order::init` leaves. -/
structure Order extends OrderRow where
  orderBoyList : List OrderBoy := []
  deriving DecidableEq, Repr

structure Material where
  id : Nat := 0
  dispatchNo : QString := []
  materialNo : QString := []
  materialName : QString := []
  deriving DecidableEq, Repr

/-- What a note of `tb_Notebook` carries: the class named in its `type` column, and for
`OtherSetInfo` the data type found in its text. -/
inductive NotebookType where
  | brushCard
  | defectiveInfo
  | adjMachine
  | otherSetInfo (dataType : UInt8)
  | qualityRegulate
  | unknown
  deriving DecidableEq, Repr

structure Notebook where
  id : Nat := 0
  type : NotebookType
  deriving DecidableEq, Repr

/-- The record of one completed mould. -/
structure Producted where
  id : Nat := 0
  dispatchNo : QString := []
  dispatchPrior : QString := []
  procCode : QString := []
  staCode : QString := []
  endCycle : QString := []
  temperValue : List Int32 := []
  machineCycle : UInt32 := 0
  fillTime : UInt32 := 0
  cycleTime : UInt32 := 0
  totalNum : Int32 := 0
  keepPress : List Int32 := []
  startCycle : QString := []
  deriving DecidableEq, Repr

structure DB where
  order : Table OrderRow.moDispatchNo := Table.empty
  orderBoy : AutoTable OrderBoy.id := AutoTable.empty
  material : AutoTable Material.id := AutoTable.empty
  notebook : AutoTable Notebook.id := AutoTable.empty
  producted : AutoTable Producted.id := AutoTable.empty
  productedBak : AutoTable Producted.id := AutoTable.empty
  deriving DecidableEq

/-! ## Notes and mould records -/

/-- `Notebook(title, data).insert()`. -/
def DB.insertNotebook (db : DB) (type : NotebookType) : DB :=
  { db with notebook := db.notebook.insert (fun n => { id := n, type := type }) (fun _ => rfl) }

/-- `Notebook::remove`. -/
def DB.removeNotebook (db : DB) (id : Nat) : DB :=
  { db with notebook := db.notebook.delete (fun r => r.id == id) }

/-- `Producted::subimt`. -/
def DB.subimtProducted (db : DB) (p : Producted) : DB :=
  { db with producted := db.producted.insert (fun n => { p with id := n }) (fun _ => rfl) }

/-- `Producted::subimt_bak`. -/
def DB.subimtBakProducted (db : DB) (p : Producted) : DB :=
  { db with productedBak := db.productedBak.insert (fun n => { p with id := n }) (fun _ => rfl) }

/-- `Producted::remove`. -/
def DB.removeProducted (db : DB) (id : Nat) : DB :=
  { db with producted := db.producted.delete (fun r => r.id == id) }

end ProgrammingPath.Mes
