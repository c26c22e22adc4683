import ProgrammingPath.Lib.Run
import ProgrammingPath.Mes.Layouts
import ProgrammingPath.Mes.OrderSeq

/-!
# Adjusting the orders by hand (`fun_dialog/fun37td.cpp`)

The dialog lists the orders by their place in the sequence. Its buttons exchange the selected order with the one above
or below it, and the main order stays where it is; on saving, every order gets the number of the row it is shown in,
and a note with the new sequence is stored for the server. `displayed_saved` says that after any clicks the table, the
display and the note agree.
-/

namespace ProgrammingPath.Mes

open ProgrammingPath.Qt ProgrammingPath.Lib ProgrammingPath.Mes.OtherSetInfo

/-! ## The widget -/

/-- `tableWidget_Order`: the texts of its second column (the first one has the numbers of the rows), and the row that
is selected, of which there is at most one. -/
structure Fun37td where
  tableWidgetOrder : List QString
  selected : Option Nat
  selected_lt : ∀ i ∈ selected, i < tableWidgetOrder.length

namespace Fun37td

variable (d : Fun37td)

/-- The selected order goes to row `j`, and the one that is there comes to row `i`. -/
def exchange (i j : Nat) (hi : i < d.tableWidgetOrder.length) (hj : j < d.tableWidgetOrder.length) : Fun37td where
  tableWidgetOrder := (d.tableWidgetOrder.set i d.tableWidgetOrder[j]).set j d.tableWidgetOrder[i]
  selected := some j
  selected_lt := by
    intro k hk
    rw [List.length_set, List.length_set, ← Option.some.inj hk]
    exact hj

/-- `Fun37td::on_btMoveUp_clicked`. -/
def onBtMoveUpClicked : Fun37td :=
  match h : d.selected with
  | none => d
  | some selectItem =>
    -- the main order, and what would take its place
    if selectItem = 0 ∨ selectItem = 1 then d
    else
      d.exchange selectItem (selectItem - 1) (d.selected_lt selectItem h)
        (Nat.lt_of_le_of_lt (Nat.sub_le selectItem 1) (d.selected_lt selectItem h))

/-- `Fun37td::on_btMoveDown_clicked`. -/
def onBtMoveDownClicked : Fun37td :=
  match h : d.selected with
  | none => d
  | some selectItem =>
    if selectItem = 0 then d
    else if hnext : selectItem + 1 < d.tableWidgetOrder.length then
      if d.tableWidgetOrder[selectItem + 1].length = 0 then d
      else d.exchange selectItem (selectItem + 1) (d.selected_lt selectItem h) hnext
    else d

variable {d}

/-! ## What a click does -/

theorem perm_exchange {i j : Nat} (hi : i < d.tableWidgetOrder.length) (hj : j < d.tableWidgetOrder.length) :
    (d.exchange i j hi hj).tableWidgetOrder.Perm d.tableWidgetOrder := List.set_set_perm hi hj

theorem head?_exchange {i j : Nat} (hi : i < d.tableWidgetOrder.length) (hj : j < d.tableWidgetOrder.length)
    (hi0 : 0 < i) (hj0 : 0 < j) :
    (d.exchange i j hi hj).tableWidgetOrder.head? = d.tableWidgetOrder.head? := by
  rw [List.head?_eq_getElem?, List.head?_eq_getElem?, exchange, List.getElem?_set_ne (Nat.ne_of_gt hj0),
    List.getElem?_set_ne (Nat.ne_of_gt hi0)]

/-- A button does nothing, or it exchanges two orders below the main order. -/
def Moves (d d' : Fun37td) : Prop :=
  d' = d ∨ ∃ i j hi hj, 0 < i ∧ 0 < j ∧ d' = d.exchange i j hi hj

theorem moves_onBtMoveUpClicked : d.Moves d.onBtMoveUpClicked := by
  unfold onBtMoveUpClicked
  split
  · exact .inl rfl
  · next selectItem hselected =>
    split
    · exact .inl rfl
    · next hbelow =>
      have hpos : 0 < selectItem ∧ 0 < selectItem - 1 := by omega
      exact .inr ⟨selectItem, selectItem - 1, _, _, hpos.1, hpos.2, rfl⟩

theorem moves_onBtMoveDownClicked : d.Moves d.onBtMoveDownClicked := by
  unfold onBtMoveDownClicked
  split
  · exact .inl rfl
  · next selectItem hselected =>
    split
    · exact .inl rfl
    · next hbelow =>
      split
      · split
        · exact .inl rfl
        · exact .inr ⟨selectItem, selectItem + 1, _, _, Nat.pos_of_ne_zero hbelow, Nat.succ_pos _, rfl⟩
      · exact .inl rfl

/-- The same orders with the same one on top. -/
def Rearranged (shown rows : List QString) : Prop := rows.Perm shown ∧ rows.head? = shown.head?

theorem Rearranged.moves {shown : List QString} {d' : Fun37td} (h : Rearranged shown d.tableWidgetOrder)
    (hmoves : d.Moves d') : Rearranged shown d'.tableWidgetOrder := by
  rcases hmoves with rfl | ⟨i, j, hi, hj, hi0, hj0, rfl⟩
  · exact h
  · exact ⟨(perm_exchange hi hj).trans h.1, (head?_exchange hi hj hi0 hj0).trans h.2⟩

/-- The number of the row in which an order is displayed. -/
def rowNumber (rows : List QString) (no : QString) : Nat := rows.idxOf no + 1

/-- Without an order twice, the rows are numbered from 1 on. -/
theorem map_rowNumber {rows : List QString} (h : rows.Nodup) :
    rows.map (rowNumber rows) = List.range' 1 rows.length := by
  apply List.ext_getElem
  · rw [List.length_map, List.length_range']
  · intro i hi hi'
    rw [List.getElem_map, List.getElem_range', rowNumber, h.idxOf_getElem, Nat.one_mul, Nat.add_comm]

end Fun37td

/-! ## The dialog and the database -/

/-- The dialog with the database it works on; `stored` are the data of the notes it inserted. -/
structure OrderDialog where
  widget : Fun37td
  db : DB
  stored : List OtherSetInfo := []

inductive Fun37tdAct where
  | select (row : Option Nat)
  | moveUp
  | moveDown
  | save

namespace OrderDialog

/-- `Fun37td::Fun37td`. -/
def init (db : DB) : OrderDialog where
  widget := { tableWidgetOrder := db.queryAll.map (·.moDispatchNo), selected := none, selected_lt := nofun }
  db := db

/-- One turn of the loop in `on_btSave_clicked`, for the order `no` in the row `number`. -/
def saveRow (saved : DB × List AdjOrder) (row : QString × Nat) : DB × List AdjOrder :=
  let (no, number) := row
  let adj : AdjOrder := {
    serialNumber := Int32.ofNat number
    dispatchNo := no
    dispatchPrior := ((saved.1.queryNo no).getD {}).moDispatchPrior }
  (saved.1.updateMainOrderFlag no number, saved.2 ++ [adj])

/-- `Fun37td::on_btSave_clicked`. -/
def onBtSaveClicked (s : OrderDialog) : OrderDialog :=
  let saved := (s.widget.tableWidgetOrder.zipIdx 1).foldl saveRow (s.db, [])
  let myOrder := OtherSetInfo.adjOrder saved.2
  { s with
    db := saved.1.insertNotebook (.otherSetInfo myOrder.dataType)
    stored := s.stored ++ [myOrder] }

/-- A row that is not there cannot be selected. -/
def step (s : OrderDialog) : Fun37tdAct → Option OrderDialog
  | .select row =>
    if h : ∀ i ∈ row, i < s.widget.tableWidgetOrder.length then
      some { s with widget := ⟨s.widget.tableWidgetOrder, row, h⟩ }
    else none
  | .moveUp => some { s with widget := s.widget.onBtMoveUpClicked }
  | .moveDown => some { s with widget := s.widget.onBtMoveDownClicked }
  | .save => some s.onBtSaveClicked

/-! ## Saving -/

section Save

variable {db : DB} {rows : List (QString × Nat)} {list : List AdjOrder}

/-- The loop updates one order after the other. -/
theorem order_foldl_saveRow : (rows.foldl saveRow (db, list)).1.order =
    rows.foldl (fun t row => t.update (fun r => r.moDispatchNo == row.1)
      (fun r => { r with mainOrderFlag := row.2 }) (fun _ => rfl)) db.order := by
  induction rows generalizing db list with
  | nil => rfl
  | cons row rows ih => exact ih

theorem snd_foldl_saveRow : ((rows.foldl saveRow (db, list)).2.map fun i => (i.serialNumber, i.dispatchNo)) =
    (list.map fun i => (i.serialNumber, i.dispatchNo)) ++ rows.map fun row => (Int32.ofNat row.2, row.1) := by
  induction rows generalizing db list with
  | nil => exact (List.append_nil _).symm
  | cons row rows ih =>
    rw [List.foldl_cons, ih, saveRow, List.map_append, List.append_assoc]
    rfl

end Save

/-- The row of an order, among the rows with their numbers. -/
theorem find?_zipIdx {rows : List QString} {no : QString} {k : Nat} (h : no ∈ rows) :
    (rows.zipIdx k).find? (fun row => no == row.1) = some (no, k + rows.idxOf no) := by
  induction rows generalizing k with
  | nil => exact absurd h List.not_mem_nil
  | cons x rows ih =>
    rw [List.zipIdx_cons, List.find?_cons]
    by_cases hx : no = x
    · rw [hx, List.idxOf_cons_self, beq_self_eq_true]
      rfl
    · have hmem : no ∈ rows := (List.mem_cons.mp h).resolve_left hx
      rw [beq_eq_false_iff_ne.mpr hx, List.idxOf_cons_ne _ (Ne.symm hx)]
      show (rows.zipIdx (k + 1)).find? _ = _
      rw [ih hmem, Nat.add_right_comm, Nat.add_assoc]

open Fun37td

/-- After the save every order has the number of its row; the number is all that changes. -/
theorem rows_onBtSaveClicked {s : OrderDialog}
    (hshown : s.widget.tableWidgetOrder.Perm (s.db.order.rows.map OrderRow.moDispatchNo)) :
    s.onBtSaveClicked.db.order.rows = s.db.order.rows.map fun r =>
      { r with mainOrderFlag := rowNumber s.widget.tableWidgetOrder r.moDispatchNo } := by
  have hnos : ((s.widget.tableWidgetOrder.zipIdx 1).map Prod.fst).Nodup := by
    rw [List.zipIdx_map_fst]
    exact hshown.nodup_iff.mpr s.db.order.nodup
  show ((s.widget.tableWidgetOrder.zipIdx 1).foldl saveRow (s.db, [])).1.order.rows = _
  rw [order_foldl_saveRow]
  refine (Table.rows_foldl_update Prod.fst (fun (row : QString × Nat) (r : OrderRow) => r.moDispatchNo == row.1)
    (fun _ _ => beq_iff_eq) (fun row r => { r with mainOrderFlag := row.2 }) (fun _ _ => rfl) hnos).trans ?_
  apply List.map_congr_left
  intro r hr
  have hmem : r.moDispatchNo ∈ s.widget.tableWidgetOrder := hshown.mem_iff.mpr (List.mem_map_of_mem hr)
  rw [find?_zipIdx hmem, Nat.add_comm]
  rfl

/-! ## Runs of clicks -/

/-- What no click changes: the orders shown, the one on top, and all that is stored of the orders but their numbers. -/
structure Same (db : DB) (s : OrderDialog) : Prop where
  rearranged : Rearranged (init db).widget.tableWidgetOrder s.widget.tableWidgetOrder
  rows : ∃ f : OrderRow → Int, s.db.order.rows = db.order.rows.map fun r => { r with mainOrderFlag := f r }

theorem tableWidgetOrder_init (db : DB) :
    (init db).widget.tableWidgetOrder = (sortRows db.order.rows).map OrderRow.moDispatchNo := by
  show (List.map _ _).map _ = _
  rw [List.map_map]
  rfl

theorem perm_init (db : DB) :
    (init db).widget.tableWidgetOrder.Perm (db.order.rows.map OrderRow.moDispatchNo) := by
  rw [tableWidgetOrder_init]
  exact (List.perm_insertionSort _ _).map _

theorem Same.perm {db : DB} {s : OrderDialog} (h : Same db s) :
    s.widget.tableWidgetOrder.Perm (s.db.order.rows.map OrderRow.moDispatchNo) := by
  obtain ⟨f, hf⟩ := h.rows
  have hnos : s.db.order.rows.map OrderRow.moDispatchNo = db.order.rows.map OrderRow.moDispatchNo := by
    rw [hf, List.map_map]
    rfl
  rw [hnos]
  exact h.rearranged.1.trans (perm_init db)

/-- Renumbering what was renumbered. -/
theorem Same.rows_onBtSaveClicked {db : DB} {s : OrderDialog} (h : Same db s) :
    s.onBtSaveClicked.db.order.rows = db.order.rows.map fun r =>
      { r with mainOrderFlag := rowNumber s.widget.tableWidgetOrder r.moDispatchNo } := by
  obtain ⟨f, hf⟩ := h.rows
  rw [OrderDialog.rows_onBtSaveClicked h.perm, hf, List.map_map]
  rfl

theorem Same.init (db : DB) : Same db (init db) where
  rearranged := ⟨.refl _, rfl⟩
  rows := ⟨OrderRow.mainOrderFlag, (List.map_id _).symm⟩

theorem Same.step {db : DB} {s s' : OrderDialog} {a : Fun37tdAct} (h : Same db s)
    (hs : s.step a = some s') : Same db s' := by
  cases a with
  | select row =>
    rw [OrderDialog.step] at hs
    split at hs
    · cases hs
      exact ⟨h.rearranged, h.rows⟩
    · cases hs
  | moveUp =>
    cases hs
    exact ⟨h.rearranged.moves moves_onBtMoveUpClicked, h.rows⟩
  | moveDown =>
    cases hs
    exact ⟨h.rearranged.moves moves_onBtMoveDownClicked, h.rows⟩
  | save =>
    cases hs
    exact ⟨h.rearranged, _, h.rows_onBtSaveClicked⟩

theorem Same.run {db : DB} {s : OrderDialog} {acts : List Fun37tdAct}
    (hrun : run OrderDialog.step (OrderDialog.init db) acts = some s) : Same db s :=
  run_invariant (fun _ _ _ h _ hs => h.step hs) (Same.init db) (Meets.of_forall (fun _ _ => trivial) _ _) hrun

/-! ## The sequence -/

/-- The main order is the first one that is shown. -/
theorem head?_init {db : DB} (hnum : Numbered db.order.rows) {r : OrderRow} (hr : r ∈ db.order.rows)
    (hmain : r.mainOrderFlag = 1) : (init db).widget.tableWidgetOrder.head? = some r.moDispatchNo := by
  rw [tableWidgetOrder_init]
  have hsorted := pairwise_sortRows hnum.nodup
  have hmem : r ∈ sortRows db.order.rows := mem_sortRows.mpr hr
  match hrows : sortRows db.order.rows with
  | [] =>
    rw [hrows] at hmem
    cases hmem
  | x :: rest =>
    rw [hrows] at hmem hsorted
    rcases List.mem_cons.mp hmem with rfl | hlater
    · rfl
    · -- what stands before the main order would have a number below 1
      have hlt := (List.pairwise_cons.mp hsorted).1 r hlater
      have hx : x ∈ db.order.rows := mem_sortRows.mp (hrows ▸ List.mem_cons_self)
      have hnumber := hnum.mem_iff.mp (List.mem_map_of_mem hx)
      obtain ⟨k, hk, hkx⟩ := List.mem_map.mp hnumber
      rw [List.mem_range'_1] at hk
      have hcast : (k : Int) = x.mainOrderFlag := hkx
      omega

/-- Numbers that are rows of a display of all orders are `1..n`. -/
theorem numbered_map_rowNumber {rows : List OrderRow} {shown : List QString}
    (hshown : shown.Perm (rows.map OrderRow.moDispatchNo)) (hnd : shown.Nodup) :
    Numbered (rows.map fun r => { r with mainOrderFlag := rowNumber shown r.moDispatchNo }) := by
  have hflags : (rows.map fun r => { r with mainOrderFlag := rowNumber shown r.moDispatchNo }).map
      OrderRow.mainOrderFlag = (rows.map OrderRow.moDispatchNo).map fun no => ((rowNumber shown no : Nat) : Int) := by
    rw [List.map_map, List.map_map]
    rfl
  have hlen : rows.length = shown.length := by rw [hshown.length_eq, List.length_map]
  rw [Numbered, hflags, List.length_map, hlen, ← map_rowNumber hnd, List.map_map (l := shown)]
  exact (hshown.map _).symm

/-- **After any clicks, the display is the original list in another order with the same order on top, and after a save
the table, the display and the note agree.** -/
theorem displayed_saved {db : DB} (hnum : Numbered db.order.rows) {acts : List Fun37tdAct} {s : OrderDialog}
    (hrun : Lib.run step (init db) acts = some s) :
    Rearranged (init db).widget.tableWidgetOrder s.widget.tableWidgetOrder ∧
      s.onBtSaveClicked.db.order.rows = db.order.rows.map (fun r =>
        { r with mainOrderFlag := rowNumber s.widget.tableWidgetOrder r.moDispatchNo }) ∧
      Numbered s.onBtSaveClicked.db.order.rows ∧
      (∀ r ∈ db.order.rows, r.mainOrderFlag = 1 → rowNumber s.widget.tableWidgetOrder r.moDispatchNo = 1) ∧
      ∃ info, s.onBtSaveClicked.stored = s.stored ++ [.adjOrder info] ∧
        info.map (fun i => (i.serialNumber, i.dispatchNo)) =
          (s.widget.tableWidgetOrder.zipIdx 1).map fun row => (Int32.ofNat row.2, row.1) := by
  have hsame := Same.run hrun
  have hshown := hsame.rearranged.1.trans (perm_init db)
  refine ⟨hsame.rearranged, hsame.rows_onBtSaveClicked, ?_, ?_, _, rfl, snd_foldl_saveRow⟩
  · rw [hsame.rows_onBtSaveClicked]
    exact numbered_map_rowNumber hshown (hshown.nodup_iff.mpr db.order.nodup)
  · intro r hr hmain
    have hhead := hsame.rearranged.2.trans (head?_init hnum hr hmain)
    obtain ⟨rest, hrest⟩ := List.head?_eq_some_iff.mp hhead
    rw [hrest, rowNumber, List.idxOf_cons_self]

/-- The main order `A`, then `B` and `C`. -/
def threeOrders : DB := {
  order := ⟨[{ moDispatchNo := [67], mainOrderFlag := 3 }, { moDispatchNo := [65], mainOrderFlag := 1 },
    { moDispatchNo := [66], mainOrderFlag := 2 }], by decide⟩ }

/-- `B` is moved down. -/
theorem displayed_saved_down :
    let s : OrderDialog := { init threeOrders with widget := ⟨[[65], [67], [66]], some 2, by decide⟩ }
    Rearranged (init threeOrders).widget.tableWidgetOrder s.widget.tableWidgetOrder ∧
      s.onBtSaveClicked.db.order.rows = threeOrders.order.rows.map (fun r =>
        { r with mainOrderFlag := rowNumber s.widget.tableWidgetOrder r.moDispatchNo }) ∧
      Numbered s.onBtSaveClicked.db.order.rows ∧
      (∀ r ∈ threeOrders.order.rows, r.mainOrderFlag = 1 →
        rowNumber s.widget.tableWidgetOrder r.moDispatchNo = 1) ∧
      ∃ info, s.onBtSaveClicked.stored = s.stored ++ [.adjOrder info] ∧
        info.map (fun i => (i.serialNumber, i.dispatchNo)) =
          (s.widget.tableWidgetOrder.zipIdx 1).map fun row => (Int32.ofNat row.2, row.1) := by
  intro s
  exact @displayed_saved threeOrders (by decide) [.select (some 1), .moveDown] s rfl

end OrderDialog

end ProgrammingPath.Mes
