import Mathlib.Data.List.Sort
import ProgrammingPath.Mes.Database

/-!
# Orders and their products (`Sqlite/Entity/Order.cpp`, `Sqlite/Entity/Material.cpp`)

The statements the program sends to `tb_order`, `tb_orderBoy` and `tb_Material`, in two groups:

* whole orders: `getBoy`, the queries, `subimt`, `remove`, `sort`, `UpdateMainOrderFlag`;
* single columns of a product. Each of these changes the object in memory and the row of the same
  `ID`; some set the column, some add to it, and the two sides may differ in that. `BoyOp` keeps
  the two halves of such an operation together.
-/

namespace ProgrammingPath.Mes

open ProgrammingPath.Qt ProgrammingPath.Lib

/-! ## Whole orders -/

namespace DB

/-- The products stored for an order, in the order of their `ID`. -/
def boys (db : DB) (no : QString) : List OrderBoy :=
  db.orderBoy.rows.filter (fun r => r.moDispatchNo == no)

/-- `Order::getBoy`: the stored products are appended to what the object already holds. -/
def getBoy (db : DB) (order : Order) : Order :=
  { order with orderBoyList := order.orderBoyList ++ db.boys order.moDispatchNo }

/-- `Order::query(order, mainOrderFlag)`. -/
def queryFlag (db : DB) (mainOrderFlag : Int) : Option Order :=
  (db.order.rows.find? (fun r => r.mainOrderFlag == mainOrderFlag)).map
    (fun r => { toOrderRow := r })

/-- `Order::query(order, DispatchNo)`. -/
def queryNo (db : DB) (dispatchNo : QString) : Option Order :=
  (db.order.lookup dispatchNo).map (fun r => { toOrderRow := r })

/-- The rows of `tb_order` by ascending `MainOrder_FLAG`. -/
def byFlag (db : DB) : List OrderRow :=
  db.order.rows.insertionSort (fun r s => r.mainOrderFlag ≤ s.mainOrderFlag)

/-- `Order::queryAll`. -/
def queryAll (db : DB) : List Order := db.byFlag.map (fun r => { toOrderRow := r })

/-- `Order::count`. -/
def countOrder (db : DB) : Nat := db.order.rows.length

/-- `Order::countMODispatchNo`. -/
def countMODispatchNo (db : DB) (no : QString) : Nat :=
  db.order.rows.countP (fun r => r.moDispatchNo == no)

/-- `OrderBoy::subimt`. The row keeps the `ID` under which the product is known. `ADJDefCount` is
not among the columns listed, so it comes back as `0`. -/
def subimtBoy (db : DB) (boy : OrderBoy) : DB :=
  { db with
    orderBoy := db.orderBoy.save
      (fun r => r.moDispatchNo == boy.moDispatchNo && r.pcsItemNo == boy.pcsItemNo)
      (fun n => { boy with id := n, adjDefCount := 0 }) (fun _ => rfl) }

/-- `Order::subimt`. -/
def subimtOrder (db : DB) (order : Order) : DB :=
  order.orderBoyList.foldl
    (fun db boy => db.subimtBoy { boy with moDispatchNo := order.moDispatchNo })
    { db with order := db.order.replace order.toOrderRow }

/-- `Order::remove`, for the order with this number. -/
def removeOrder (db : DB) (no : QString) : DB :=
  { db with
    order := db.order.delete (fun r => r.moDispatchNo == no)
    orderBoy := db.orderBoy.delete (fun r => r.moDispatchNo == no)
    material := db.material.delete (fun r => r.dispatchNo == no) }

/-- `Order::sort`: the orders, by ascending number, are numbered from `1` on and stored again. -/
def sort (db : DB) : DB :=
  (db.queryAll.zipIdx 1).foldl
    (fun db (o : Order × Nat) => db.subimtOrder { o.1 with mainOrderFlag := o.2 }) db

/-- `Order::UpdateMainOrderFlag`. -/
def updateMainOrderFlag (db : DB) (dispatchNo : QString) (index : Int) : DB :=
  { db with
    order := db.order.update (fun r => r.moDispatchNo == dispatchNo)
      (fun r => { r with mainOrderFlag := index }) (fun _ => rfl) }

/-- `Order::OnAddMOTotalNum`, the part that changes the row. -/
def onAddMOTotalNum (db : DB) (no : QString) (value : Int32) : DB :=
  { db with
    order := db.order.update (fun r => r.moDispatchNo == no)
      (fun r => { r with moTotalNum := r.moTotalNum + value }) (fun _ => rfl) }

/-- `Material::subimt`. -/
def subimtMaterial (db : DB) (m : Material) : DB :=
  { db with
    material := db.material.save
      (fun r => r.dispatchNo == m.dispatchNo && r.materialNo == m.materialNo)
      (fun n => { m with id := n }) (fun _ => rfl) }

end DB

/-! ## Single columns of a product -/

/-- What an operation on a product does: `mem` to the object, and `row` to the row with the
object's `ID`, where the first argument is the object before the operation. -/
structure BoyOp where
  mem : OrderBoy → OrderBoy
  row : OrderBoy → OrderBoy → OrderBoy
  row_id : ∀ b r, (row b r).id = r.id

namespace BoyOp

/-- `OrderBoy::OnUpdatePcsSocketNum2`. -/
def onUpdatePcsSocketNum2 (value : Int32) : BoyOp where
  mem b := { b with pcsSocketNum2 := value }
  row _ r := { r with pcsSocketNum2 := value }
  row_id _ _ := rfl

/-- `OrderBoy::OnUpdatePCSBadData`. -/
def onUpdatePCSBadData (list : List Int32) : BoyOp where
  mem b := { b with pcsBadData := list }
  row _ r := { r with pcsBadData := list }
  row_id _ _ := rfl

/-- `OrderBoy::OnAddPcsBadQty`. -/
def onAddPcsBadQty (value : Int32) : BoyOp where
  mem b := { b with pcsBadQty := b.pcsBadQty + value }
  row _ r := { r with pcsBadQty := r.pcsBadQty + value }
  row_id _ _ := rfl

/-- `OrderBoy::OnReplaceClass`. -/
def onReplaceClass : BoyOp where
  mem b := { b with
    curClassProductNo := 0, curClassBadNo := 0, curClassPolishNo := 0, curClassInspectNo := 0 }
  row _ r := { r with
    curClassProductNo := 0, curClassBadNo := 0, curClassPolishNo := 0, curClassInspectNo := 0 }
  row_id _ _ := rfl

/-- `OrderBoy::OnAddCurClassProductNo`: `TotalOkNum` is computed in memory and stored as it is. -/
def onAddCurClassProductNo (value : Int32) : BoyOp where
  mem b := { b with
    curClassProductNo := b.curClassProductNo + value, totalOkNum := b.totalOkNum + value }
  row b r := { r with
    totalOkNum := b.totalOkNum + value, curClassProductNo := r.curClassProductNo + value }
  row_id _ _ := rfl

/-- `OrderBoy::OnAddCurClassBadNo`. -/
def onAddCurClassBadNo (value : Int32) : BoyOp where
  mem b := { b with
    curClassBadNo := b.curClassBadNo + value, totalOkNum := b.totalOkNum - value }
  row b r := { r with
    totalOkNum := b.totalOkNum - value, curClassBadNo := r.curClassBadNo + value }
  row_id _ _ := rfl

/-- Leave the product alone. -/
def skip : BoyOp := ⟨id, fun _ r => r, fun _ _ => rfl⟩

/-- One operation after the other. -/
def andThen (f g : BoyOp) : BoyOp where
  mem b := g.mem (f.mem b)
  row b r := g.row (f.mem b) (f.row b r)
  row_id b r := by rw [g.row_id, f.row_id]

end BoyOp

/-- Carry an operation out on the rows. -/
def DB.applyBoy (db : DB) (op : BoyOp) (boy : OrderBoy) : DB :=
  { db with
    orderBoy := db.orderBoy.update (fun r => r.id == boy.id) (op.row boy) (op.row_id boy) }

/-- Carry out, for each product of a list in turn, the operation paired with it. -/
def DB.applyBoys (db : DB) : List (OrderBoy × BoyOp) → DB × List OrderBoy
  | [] => (db, [])
  | (b, op) :: rest =>
    let r := (db.applyBoy op b).applyBoys rest
    (r.1, op.mem b :: r.2)

end ProgrammingPath.Mes
