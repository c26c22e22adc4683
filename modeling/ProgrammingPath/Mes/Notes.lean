import ProgrammingPath.Mes.Ledger

/-!
# What the operations do to `tb_Notebook`

Whatever the program does with orders and products, notes are only added. One lemma for each
operation says so, with `AutoTable.Grown`; only the answers to uploads remove a note.
-/

namespace ProgrammingPath.Mes

open ProgrammingPath.Qt ProgrammingPath.Lib

namespace DB

variable {db : DB}

@[simp] theorem notebook_subimtOrder (o : Order) : (db.subimtOrder o).notebook = db.notebook :=
  foldl_frame notebook (fun _ _ => by rfl) _ _

@[simp] theorem notebook_removeOrder (no : QString) : (db.removeOrder no).notebook = db.notebook :=
  rfl

@[simp] theorem notebook_sort : db.sort.notebook = db.notebook :=
  foldl_frame notebook (fun _ _ => notebook_subimtOrder _) _ _

@[simp] theorem notebook_materials (l : List Material) :
    (l.foldl subimtMaterial db).notebook = db.notebook :=
  foldl_frame notebook (fun _ _ => by rfl) _ _

@[simp] theorem notebook_onUpdate : db.onUpdate.1.notebook = db.notebook := by
  unfold onUpdate
  split <;> simp

@[simp] theorem notebook_applyBoys (l : List (OrderBoy × BoyOp)) :
    (db.applyBoys l).1.notebook = db.notebook := by
  induction l generalizing db with
  | nil => rfl
  | cons p l ih =>
    rw [applyBoys, ih]
    rfl

theorem grown_insertNotebook (type : NotebookType) :
    db.notebook.Grown (db.insertNotebook type).notebook := by
  unfold insertNotebook
  dsimp only
  exact AutoTable.Grown.insert

theorem grown_brushChangeOrder : db.notebook.Grown (Shop.brushChangeOrder db).notebook :=
  (grown_insertNotebook _).trans (grown_insertNotebook _)

end DB

namespace Shop

variable {shop shop' : Shop}

theorem grown_onOrderSend (order : Order) (materialList : List Material) :
    shop.db.notebook.Grown (shop.onOrderSend order materialList).db.notebook := by
  apply AutoTable.Grown.of_eq
  unfold onOrderSend
  dsimp only
  split <;> simp

theorem grown_onOrderDelete (no : QString) :
    shop.db.notebook.Grown (shop.onOrderDelete no).db.notebook := by
  unfold onOrderDelete
  split
  · exact .refl _
  · split
    · exact .refl _
    · simp only [db_onUpdate, DB.notebook_onUpdate, DB.notebook_sort, DB.notebook_removeOrder]
      split
      · exact DB.grown_brushChangeOrder
      · exact .refl _

theorem grown_onOrderReplace : shop.db.notebook.Grown shop.onOrderReplace.db.notebook := by
  have h : shop.onOrderReplace.db.notebook = (brushChangeOrder
      (((shop.db.onUpdate.1.removeOrder shop.db.onUpdate.2.moDispatchNo).sort).onUpdate.1)).notebook := by
    rw [onOrderReplace, db_onUpdate, DB.notebook_onUpdate]
  rw [h]
  exact (AutoTable.Grown.of_eq (by simp)).trans DB.grown_brushChangeOrder

theorem grown_adjustOrders (orderIndexList : List OrderIndex) :
    shop.db.notebook.Grown (shop.adjustOrders orderIndexList).db.notebook := by
  apply AutoTable.Grown.of_eq
  unfold adjustOrders
  induction orderIndexList generalizing shop with
  | nil => rfl
  | cons i l ih =>
    rw [List.foldl_cons, ih, onOrderModify, db_onUpdate, DB.notebook_onUpdate]
    rfl

theorem grown_onReplaceOrder : shop.db.notebook.Grown shop.onReplaceOrder.db.notebook := by
  refine (AutoTable.Grown.of_eq ?_).trans DB.grown_brushChangeOrder
  simp

/-- Whatever happens to the orders, notes are only added. -/
theorem grown_step {a : Act} (hs : shop.step a = some shop') :
    shop.db.notebook.Grown shop'.db.notebook := by
  cases a with
  | orderFrame pack =>
    cases hs
    unfold onOrderFrame
    split
    · exact .refl _
    · exact grown_onOrderSend _ _
  | orderDelete no =>
    cases hs
    exact grown_onOrderDelete no
  | orderReplace =>
    cases hs
    exact grown_onOrderReplace
  | delete =>
    cases hs
    exact .of_eq (by simp [onDelete])
  | addModeCount haveStopCard autoChangeOrder producted =>
    cases hs
    have hcount : (shop.countMould producted).db.notebook = shop.db.notebook := by
      show (DB.applyBoys _ _).1.notebook = _
      rw [DB.notebook_applyBoys]
      rfl
    unfold onAddModeCount
    split
    · exact .refl _
    · simp only [db_onUpdate, DB.notebook_onUpdate]
      split
      · exact (AutoTable.Grown.of_eq hcount).trans grown_onReplaceOrder
      · exact .of_eq hcount
  | replaceClass =>
    cases hs
    exact .of_eq (by simp [onReplaceClass, applyBoys])
  | inputCell boyIndex index v =>
    obtain ⟨mesTable, rfl⟩ := inputCell_eq hs
    exact .refl _
  | qcSave =>
    simp only [step, qcSave] at hs
    split at hs
    · cases hs
    · cases hs
      rw [db_onUpdate, DB.notebook_onUpdate]
      exact (AutoTable.Grown.of_eq (DB.notebook_applyBoys _)).trans (DB.grown_insertNotebook _)
  | adjSocketNum list prior =>
    rcases adjSocketNum_cases hs with ⟨-, rfl⟩ | ⟨-, l, o, -, -, -, -, -, -, stored, rfl, hdb, -, -⟩
    · exact .refl _
    · have hstored : shop.db.notebook.Grown stored.onUpdate.db.notebook := by
        rw [db_onUpdate, DB.notebook_onUpdate, hdb, DB.notebook_subimtOrder]
        exact (AutoTable.Grown.of_eq (DB.notebook_applyBoys _)).trans (DB.grown_insertNotebook _)
      exact hstored.trans DB.grown_brushChangeOrder

end Shop

end ProgrammingPath.Mes
