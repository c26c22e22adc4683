import ProgrammingPath.Lib.Run
import ProgrammingPath.Mes.Shop

/-!
# What the operations do to `tb_order`

One lemma for each operation, saying which rows `tb_order` holds afterwards. The statements about
the sequence of orders are proved from these; none of them looks into an operation again.
-/

namespace ProgrammingPath.Mes

open ProgrammingPath.Qt ProgrammingPath.Lib

/-- The empty order that `OnUpdate` creates. -/
def emptyOrder : OrderRow := { mainOrderFlag := 1 }

namespace DB

variable {db : DB}

/-- Some order has number 1. -/
def HasMain (rows : List OrderRow) : Prop := ∃ r ∈ rows, r.mainOrderFlag = 1

instance (rows : List OrderRow) : Decidable (HasMain rows) := inferInstanceAs (Decidable (∃ _ ∈ _, _))

@[simp] theorem order_subimtOrder (o : Order) :
    (db.subimtOrder o).order = db.order.replace o.toOrderRow :=
  foldl_frame DB.order (fun _ _ => by rfl) _ _

theorem order_foldl_subimtMaterial (l : List Material) :
    (l.foldl subimtMaterial db).order = db.order :=
  foldl_frame DB.order (fun _ _ => by rfl) _ _

/-- The main order exists exactly when the query for it succeeds. -/
theorem queryFlag_one_isSome : (db.queryFlag 1).isSome ↔ HasMain db.order.rows := by
  rw [queryFlag, Option.isSome_map, List.find?_isSome]
  simp [HasMain]

theorem onUpdate_of_hasMain (h : HasMain db.order.rows) : db.onUpdate.1 = db := by
  obtain ⟨o, ho⟩ := Option.isSome_iff_exists.mp (queryFlag_one_isSome.mpr h)
  rw [onUpdate, ho]

theorem order_onUpdate_of_not_hasMain (h : ¬ HasMain db.order.rows) :
    db.onUpdate.1.order = db.order.replace emptyOrder := by
  have hnone : db.queryFlag 1 = none := by
    rw [← queryFlag_one_isSome] at h
    simpa using h
  rw [onUpdate, hnone]
  exact order_subimtOrder _

/-- `OnUpdate` on the rows: a missing main order is replaced by the empty one. -/
def fillMain (rows : List OrderRow) : List OrderRow :=
  if HasMain rows then rows else rows.filter (fun r => r.moDispatchNo ≠ []) ++ [emptyOrder]

theorem rows_onUpdate : db.onUpdate.1.order.rows = fillMain db.order.rows := by
  unfold fillMain
  split
  · next h => rw [onUpdate_of_hasMain h]
  · next h =>
    rw [order_onUpdate_of_not_hasMain h]
    rfl

/-- `OnUpdate` leaves the products alone: the empty order has none. -/
@[simp] theorem orderBoy_onUpdate : db.onUpdate.1.orderBoy = db.orderBoy := by
  unfold onUpdate
  split
  · rfl
  · rfl

/-! ## Numbering -/

/-- Orders numbered from `1` on in the order of the list. -/
def renumber (rows : List OrderRow) : List OrderRow :=
  (rows.zipIdx 1).map (fun p => { p.1 with mainOrderFlag := p.2 })

theorem map_moDispatchNo_renumber (rows : List OrderRow) :
    (renumber rows).map OrderRow.moDispatchNo = rows.map OrderRow.moDispatchNo := by
  rw [renumber, List.map_map]
  show (rows.zipIdx 1).map (OrderRow.moDispatchNo ∘ Prod.fst) = _
  rw [← List.map_map, List.zipIdx_map_fst]

@[simp] theorem length_renumber (rows : List OrderRow) : (renumber rows).length = rows.length := by
  simp [renumber]

/-- `sort` stores the orders by ascending number, numbered from `1` on. -/
theorem rows_sort : db.sort.order.rows = renumber db.byFlag := by
  have hfold : ∀ (l : List (OrderRow × Nat)) (db : DB),
      ((l.map (fun p => (({ toOrderRow := p.1 } : Order), p.2))).foldl
        (fun db (o : Order × Nat) => db.subimtOrder { o.1 with mainOrderFlag := o.2 }) db).order =
      (l.map (fun p => ({ p.1 with mainOrderFlag := p.2 } : OrderRow))).foldl Table.replace
        db.order := by
    intro l
    induction l with
    | nil => exact fun _ => rfl
    | cons p l ih =>
      intro db
      simp only [List.map_cons, List.foldl_cons]
      rw [ih, order_subimtOrder]
  have hzip : db.queryAll.zipIdx 1 =
      (db.byFlag.zipIdx 1).map (fun p => (({ toOrderRow := p.1 } : Order), p.2)) := by
    rw [queryAll, List.zipIdx_map]
    rfl
  rw [sort, hzip, hfold]
  show ((renumber db.byFlag).foldl Table.replace db.order).rows = _
  apply Table.rows_foldl_replace_of_perm
  rw [map_moDispatchNo_renumber]
  exact (List.perm_insertionSort _ _).map _

end DB

@[simp] theorem Shop.db_onUpdate (shop : Shop) : shop.onUpdate.db = shop.db.onUpdate.1 := by
  unfold Shop.onUpdate Shop.onUpdateMainOrder
  split
  · rfl
  · rfl

end ProgrammingPath.Mes
