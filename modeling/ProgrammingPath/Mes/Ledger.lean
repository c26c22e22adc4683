import ProgrammingPath.Mes.Books

/-!
# The books of the program

`Books` is about the database alone. The program works on the main order in memory and writes
single columns, so it also matters that memory and database agree whenever an operation begins:
`Balanced P` says that the orders are a sequence, that the books are kept, and that the main order
in memory is the one in the database.

Every operation of `Shop` keeps this for any `P`, given what it does to a product. Two relations are
followed this way, the count of good pieces and the count of defects.
-/

namespace ProgrammingPath.Mes

open ProgrammingPath.Qt ProgrammingPath.Lib

/-! ## The database -/

structure Ledger (P : QString → Int32 → OrderBoy → Prop) (db : DB) : Prop where
  seq : Sequence db.order.rows
  books : Books P db

namespace Ledger

variable {P : QString → Int32 → OrderBoy → Prop} {db : DB}

theorem congr {db' : DB} (h : Ledger P db) (ho : db'.order = db.order)
    (hb : db'.orderBoy = db.orderBoy) : Ledger P db' :=
  ⟨by rw [ho]; exact h.seq, h.books.congr ho hb⟩

theorem brushChangeOrder (h : Ledger P db) : Ledger P (Shop.brushChangeOrder db) := h.congr rfl rfl

/-- Removing an order and numbering the rest. -/
theorem remove (h : Ledger P db) (no : QString) : Ledger P (db.removeOrder no).sort :=
  ⟨by rw [rows_remove]; exact h.seq.remove no, (h.books.removeOrder no).sort⟩

theorem onUpdate (h : Ledger P db) : Ledger P db.onUpdate.1 :=
  ⟨by rw [DB.rows_onUpdate]; exact h.seq.fillMain, h.books.onUpdate h.seq⟩

/-- Operations on the products of one order, together with its mould count. -/
theorem applyBoys (h : Ledger P db) {no : QString} {l : List (OrderBoy × BoyOp)} {k : Int32}
    (hl : l.map Prod.fst = db.boys no)
    (hop : ∀ p ∈ l, ∀ total, P no total p.1 → P no (total + k) (p.2.row p.1 p.1))
    (hkey : ∀ p ∈ l, (p.2.row p.1 p.1).moDispatchNo = p.1.moDispatchNo ∧
      (p.2.row p.1 p.1).pcsItemNo = p.1.pcsItemNo) :
    Ledger P ((db.onAddMOTotalNum no k).applyBoys l).1 := by
  refine ⟨h.seq.of_perm ?_, h.books.applyBoys hl hop hkey⟩
  rw [DB.order_applyBoys]
  show ((db.order.rows.map _).map _).Perm _
  rw [List.map_map]
  refine List.Perm.of_eq (List.map_congr_left fun r _ => ?_)
  dsimp only [Function.comp]
  split
  · rfl
  · rfl

/-- Storing an order over the row it was read from. -/
theorem subimtOrder {row : OrderRow} {o : Order} (hseq : Sequence db.order.rows)
    (hbooks : Books P (db.subimtOrder o)) (hrow : row ∈ db.order.rows)
    (hno : o.moDispatchNo = row.moDispatchNo) (hflag : o.mainOrderFlag = row.mainOrderFlag) :
    Ledger P (db.subimtOrder o) := by
  refine ⟨hseq.of_perm ?_, hbooks⟩
  rw [DB.order_subimtOrder]
  show ((db.order.rows.filter (fun s => s.moDispatchNo ≠ o.moDispatchNo) ++ [o.toOrderRow]).map
    _).Perm _
  rw [List.map_append, List.map_singleton, hno, hflag]
  have hperm := (Table.perm_cons_filter hrow).map fun r : OrderRow => (r.moDispatchNo, r.mainOrderFlag)
  rw [List.map_cons] at hperm
  exact List.perm_append_singleton _ _ |>.trans hperm.symm

end Ledger

/-! ## The program -/

namespace Shop

variable {P : QString → Int32 → OrderBoy → Prop} {shop : Shop}

/-- The main order in memory is the one in the database. -/
def Fresh (shop : Shop) : Prop :=
  ∃ row ∈ shop.db.order.rows, row.mainOrderFlag = 1 ∧
    shop.mainOrderCache = { toOrderRow := row, orderBoyList := shop.db.boys row.moDispatchNo }

structure Balanced (P : QString → Int32 → OrderBoy → Prop) (shop : Shop) : Prop where
  ledger : Ledger P shop.db
  fresh : shop.Fresh

@[simp] theorem mainOrderCache_onUpdate : shop.onUpdate.mainOrderCache = shop.db.onUpdate.2 := by
  unfold onUpdate onUpdateMainOrder
  split
  · rfl
  · rfl

/-- Reading the main order again brings memory and database together. -/
theorem balanced_onUpdate (h : Ledger P shop.db) : Balanced P shop.onUpdate := by
  refine ⟨by rw [db_onUpdate]; exact h.onUpdate, ?_⟩
  unfold Fresh
  rw [db_onUpdate, mainOrderCache_onUpdate]
  by_cases hnil : shop.db.order.rows = []
  · have hmain : ¬ DB.HasMain shop.db.order.rows := by
      rw [hnil]
      rintro ⟨r, hr, -⟩
      exact absurd hr List.not_mem_nil
    have hnone : shop.db.queryFlag 1 = none := by
      rw [← DB.queryFlag_one_isSome] at hmain
      simpa using hmain
    -- there is no order, so there are no products either
    have hboys : shop.db.onUpdate.1.boys [] = [] := by
      rw [List.eq_nil_iff_forall_not_mem]
      intro b hb
      obtain ⟨hb, -⟩ := DB.mem_boys.mp hb
      rw [DB.orderBoy_onUpdate] at hb
      obtain ⟨row, hrow, -⟩ := h.books.owned b hb
      rw [hnil] at hrow
      exact absurd hrow List.not_mem_nil
    refine ⟨emptyOrder, ?_, rfl, ?_⟩
    · rw [DB.rows_onUpdate, DB.fillMain, if_neg hmain]
      simp
    · rw [show emptyOrder.moDispatchNo = [] from rfl, hboys, DB.onUpdate, hnone]
      rfl
  · have hmain := h.seq.numbered.hasMain hnil
    obtain ⟨o, ho⟩ := Option.isSome_iff_exists.mp (DB.queryFlag_one_isSome.mpr hmain)
    obtain ⟨row, hrow, rfl⟩ := Option.map_eq_some_iff.mp ho
    refine ⟨row, ?_, by simpa using List.find?_some hrow, ?_⟩
    · rw [DB.onUpdate_of_hasMain hmain]
      exact List.mem_of_find?_eq_some hrow
    · rw [DB.onUpdate_of_hasMain hmain, DB.onUpdate, ho]
      rfl

/-- Only the orders, the products and the main order in memory matter. -/
theorem Balanced.congr {shop' : Shop} (h : Balanced P shop) (ho : shop'.db.order = shop.db.order)
    (hb : shop'.db.orderBoy = shop.db.orderBoy)
    (hc : shop'.mainOrderCache = shop.mainOrderCache) : Balanced P shop' := by
  refine ⟨h.ledger.congr ho hb, ?_⟩
  obtain ⟨row, hrow, hflag, hcache⟩ := h.fresh
  refine ⟨row, by rw [ho]; exact hrow, hflag, ?_⟩
  rw [hc, hcache, DB.boys, DB.boys, hb]

/-- What the books say about the main order in memory. -/
theorem Balanced.cache (h : Balanced P shop) : ∀ b ∈ shop.mainOrderCache.orderBoyList,
    P shop.mainOrderCache.moDispatchNo shop.mainOrderCache.moTotalNum b := by
  obtain ⟨row, hrow, -, hcache⟩ := h.fresh
  rw [hcache]
  intro b hb
  obtain ⟨hb, hno⟩ := DB.mem_boys.mp hb
  exact h.ledger.books.count row hrow b hb hno

theorem Balanced.boys (h : Balanced P shop) :
    shop.mainOrderCache.orderBoyList = shop.db.boys shop.mainOrderCache.moDispatchNo := by
  obtain ⟨row, -, -, hcache⟩ := h.fresh
  rw [hcache]

/-! ### Orders come and go -/

theorem balanced_onReplaceOrder (h : Ledger P shop.db) : Balanced P shop.onReplaceOrder :=
  Balanced.congr (balanced_onUpdate (h.remove shop.mainOrderCache.moDispatchNo)) rfl rfl rfl

theorem balanced_onDelete (h : Ledger P shop.db) : Balanced P shop.onDelete :=
  balanced_onUpdate (h.remove _)

theorem balanced_onOrderDelete (h : Balanced P shop) (no : QString) :
    Balanced P (shop.onOrderDelete no) := by
  unfold onOrderDelete
  split
  · exact h
  · next order _ =>
    split
    · exact h
    · apply balanced_onUpdate
      apply Ledger.remove
      split
      · exact h.ledger.brushChangeOrder
      · exact h.ledger

theorem balanced_onOrderReplace (h : Ledger P shop.db) : Balanced P shop.onOrderReplace :=
  balanced_onUpdate ((h.onUpdate.remove shop.db.onUpdate.2.moDispatchNo).onUpdate.brushChangeOrder)

/-- A dispatched order may be empty-numbered only if nothing else is stored. -/
def NumberOk (shop : Shop) (no : QString) : Prop :=
  no ≠ [] ∨ ((∀ r ∈ shop.db.order.rows, r.moDispatchNo = []) ∧ shop.db.boys [] = [])

instance (shop : Shop) (no : QString) : Decidable (shop.NumberOk no) :=
  inferInstanceAs (Decidable (_ ∨ _))

/-- If the order is not there, its products are not either. -/
theorem boys_eq_nil (h : Books P shop.db) {no : QString}
    (hno : ∀ r ∈ shop.db.order.rows, r.moDispatchNo ≠ no) : shop.db.boys no = [] := by
  rw [List.eq_nil_iff_forall_not_mem]
  intro b hb
  obtain ⟨hb, hbno⟩ := DB.mem_boys.mp hb
  obtain ⟨row, hrow, heq⟩ := h.owned b hb
  exact hno row hrow (heq.trans hbno)

theorem ledger_materials {db : DB} (h : Ledger P db) (l : List Material) :
    Ledger P (l.foldl DB.subimtMaterial db) :=
  h.congr (DB.order_foldl_subimtMaterial l) (foldl_frame DB.orderBoy (fun _ _ => by rfl) _ _)

/-- A new order goes to the end, with its products as they were sent. -/
theorem ledger_send {db : DB} (h : Ledger P db) (hne : ∀ r ∈ db.order.rows, r.moDispatchNo ≠ [])
    {order : Order} (hnew : ∀ r ∈ db.order.rows, r.moDispatchNo ≠ order.moDispatchNo)
    (hno : order.moDispatchNo ≠ [] ∨ db.order.rows = [])
    (hflag : order.mainOrderFlag = db.countOrder + 1)
    (hP : ∀ c ∈ order.orderBoyList, ∀ n,
      P order.moDispatchNo order.moTotalNum (DB.storedBoy order.moDispatchNo c n)) :
    Ledger P (db.subimtOrder order) := by
  constructor
  · rw [DB.order_subimtOrder, Table.rows_replace_of_new hnew]
    exact h.seq.append hne hflag hno
  · apply Books.subimtOrder (h.books.mono fun _ _ _ hb _ => hb) hP
    intro b hb
    obtain ⟨hb, hbno⟩ := DB.mem_boys.mp hb
    obtain ⟨row, hrow, heq⟩ := h.books.owned b hb
    exact absurd (heq.trans hbno) (hnew row hrow)

theorem balanced_onOrderSend (h : Balanced P shop) {order : Order} (materialList : List Material)
    (hok : shop.NumberOk order.moDispatchNo)
    (hP : shop.db.boys order.moDispatchNo = [] → ∀ c ∈ order.orderBoyList, ∀ n,
      P order.moDispatchNo order.moTotalNum (DB.storedBoy order.moDispatchNo c n)) :
    Balanced P (shop.onOrderSend order materialList) := by
  have hledger : Ledger P (shop.db.removeOrder []) :=
    ⟨h.ledger.seq.without_empty, h.ledger.books.removeOrder []⟩
  have hne : ∀ r ∈ (shop.db.removeOrder []).order.rows, r.moDispatchNo ≠ [] := by
    intro r hr
    simpa using (Table.mem_delete.mp hr).2
  unfold onOrderSend
  simp only
  split
  · next hcount =>
    rw [DB.countMODispatchNo, ← Nat.pos_iff_ne_zero, List.countP_pos_iff] at hcount
    obtain ⟨r, hr, -⟩ := hcount
    -- an order is left, so there was no empty one and nothing was removed
    rcases h.ledger.seq.filter_ne_nil with hnil | ⟨hsame, hall⟩
    · have hr' : r ∈ shop.db.order.rows.filter (fun r => !(r.moDispatchNo == [])) := hr
      rw [hnil] at hr'
      exact absurd hr' List.not_mem_nil
    · refine Balanced.congr h (Table.ext hsame) ?_ rfl
      refine AutoTable.ext (List.filter_eq_self.mpr fun b hb => ?_) rfl
      obtain ⟨row, hrow, heq⟩ := h.ledger.books.owned b hb
      simpa [heq] using hall row hrow
  · next hcount =>
    rw [DB.countMODispatchNo, not_not, List.countP_eq_zero] at hcount
    have hnew : ∀ r ∈ (shop.db.removeOrder []).order.rows, r.moDispatchNo ≠ order.moDispatchNo :=
      fun r hr => by simpa using hcount r hr
    have hnothing : shop.db.boys order.moDispatchNo = [] := by
      rcases hok with hok | hok
      · apply boys_eq_nil h.ledger.books
        intro r hr heq
        exact hnew r (Table.mem_delete.mpr ⟨hr, by simpa [heq] using hok⟩) heq
      · by_cases hnil : order.moDispatchNo = []
        · rw [hnil]
          exact hok.2
        · apply boys_eq_nil h.ledger.books
          intro r hr heq
          exact hnil (heq.symm.trans (hok.1 r hr))
    have hno : order.moDispatchNo ≠ [] ∨ (shop.db.removeOrder []).order.rows = [] := by
      rcases hok with hok | hok
      · exact .inl hok
      · right
        rw [List.eq_nil_iff_forall_not_mem]
        intro r hr
        exact hne r hr (hok.1 r (Table.mem_delete.mp hr).1)
    apply balanced_onUpdate
    apply ledger_materials
    exact ledger_send hledger hne hnew hno rfl (hP hnothing)

/-! ### Operations on the products of the main order -/

/-- What happens to the main order in the database when its products are changed, and `k` moulds
are added. -/
theorem Balanced.ledger_applyBoys (h : Balanced P shop) {l : List (OrderBoy × BoyOp)} {k : Int32}
    (hl : l.map Prod.fst = shop.mainOrderCache.orderBoyList)
    (hop : ∀ p ∈ l, ∀ total, P shop.mainOrderCache.moDispatchNo total p.1 →
      P shop.mainOrderCache.moDispatchNo (total + k) (p.2.row p.1 p.1))
    (hkey : ∀ p ∈ l, (p.2.row p.1 p.1).moDispatchNo = p.1.moDispatchNo ∧
      (p.2.row p.1 p.1).pcsItemNo = p.1.pcsItemNo) :
    Ledger P ((shop.db.onAddMOTotalNum shop.mainOrderCache.moDispatchNo k).applyBoys l).1 :=
  h.ledger.applyBoys (hl.trans h.boys) hop hkey

theorem balanced_onReplaceClass (h : Balanced P shop)
    (hclass : ∀ no total b, P no total b → P no total (BoyOp.onReplaceClass.row b b)) :
    Balanced P shop.onReplaceClass := by
  apply balanced_onUpdate
  have hledger := h.ledger_applyBoys (k := 0)
    (l := shop.mainOrderCache.orderBoyList.map fun b => (b, .onReplaceClass)) ?_ ?_ ?_
  · rwa [DB.onAddMOTotalNum_zero] at hledger
  · rw [List.map_map]
    exact List.map_id _
  · intro p hp total hP
    obtain ⟨b, -, rfl⟩ := List.mem_map.mp hp
    rw [Int32.add_zero]
    exact hclass _ _ _ hP
  · intro p hp
    obtain ⟨b, -, rfl⟩ := List.mem_map.mp hp
    exact ⟨rfl, rfl⟩

/-- One more mould, on the books. -/
theorem ledger_countMould (h : Balanced P shop) (producted : Producted)
    (hmould : ∀ no total b, P no total b →
      P no (total + 1) ((BoyOp.onAddCurClassProductNo (1 * b.pcsSocketNum2)).row b b)) :
    Ledger P (shop.countMould producted).db := by
  have hledger := h.ledger_applyBoys (k := 1)
    (l := shop.mainOrderCache.orderBoyList.map fun b =>
      (b, .onAddCurClassProductNo (1 * b.pcsSocketNum2))) ?_ ?_ ?_
  · exact hledger.congr rfl rfl
  · rw [List.map_map]
    exact List.map_id _
  · intro p hp total hP
    obtain ⟨b, -, rfl⟩ := List.mem_map.mp hp
    exact hmould _ _ _ hP
  · intro p hp
    obtain ⟨b, -, rfl⟩ := List.mem_map.mp hp
    exact ⟨rfl, rfl⟩

theorem balanced_onAddModeCount (h : Balanced P shop) (haveStopCard autoChangeOrder : Bool)
    (producted : Producted)
    (hmould : ∀ no total b, P no total b →
      P no (total + 1) ((BoyOp.onAddCurClassProductNo (1 * b.pcsSocketNum2)).row b b)) :
    Balanced P (shop.onAddModeCount haveStopCard autoChangeOrder producted) := by
  have hledger := ledger_countMould h producted hmould
  unfold onAddModeCount
  split
  · exact h
  · apply balanced_onUpdate
    split
    · exact (balanced_onReplaceOrder hledger).ledger
    · exact hledger

/-- Entering a count changes only the table of the page. -/
theorem inputCell_eq {shop' : Shop} {boyIndex index : Nat} {v : Int32}
    (hs : shop.inputCell boyIndex index v = some shop') :
    ∃ mesTable, shop' = { shop with mesTable := mesTable } := by
  unfold inputCell at hs
  split at hs
  · cases hs
    exact ⟨_, rfl⟩
  · split at hs
    · cases hs
      exact ⟨_, rfl⟩
    · split at hs
      · cases hs
      · dsimp only at hs
        split at hs
        · cases hs
          exact ⟨_, rfl⟩
        · cases hs
          exact ⟨_, rfl⟩

theorem Balanced.inputCell {shop' : Shop} {boyIndex index : Nat} {v : Int32} (h : Balanced P shop)
    (hs : shop.inputCell boyIndex index v = some shop') : Balanced P shop' := by
  obtain ⟨mesTable, rfl⟩ := inputCell_eq hs
  exact h.congr rfl rfl rfl

theorem map_fst_saveOps : shop.saveOps.map Prod.fst = shop.mainOrderCache.orderBoyList := by
  rw [saveOps, List.map_map]
  exact List.zipIdx_map_fst 0 _

/-- A save leaves number and item of a product alone. -/
theorem key_saveOps {p : OrderBoy × BoyOp} (hp : p ∈ shop.saveOps) :
    (p.2.row p.1 p.1).moDispatchNo = p.1.moDispatchNo ∧
      (p.2.row p.1 p.1).pcsItemNo = p.1.pcsItemNo := by
  obtain ⟨bi, -, rfl⟩ := List.mem_map.mp hp
  dsimp only
  cases shop.mesTable[bi.2]? with
  | none => exact ⟨rfl, rfl⟩
  | some table => exact ⟨rfl, rfl⟩

theorem ledger_save (h : Balanced P shop)
    (hsave : ∀ p ∈ shop.saveOps, ∀ total, P shop.mainOrderCache.moDispatchNo total p.1 →
      P shop.mainOrderCache.moDispatchNo total (p.2.row p.1 p.1)) :
    Ledger P (shop.db.applyBoys shop.saveOps).1 := by
  have hledger := h.ledger_applyBoys (k := 0) map_fst_saveOps ?_ (fun p hp => key_saveOps hp)
  · rwa [DB.onAddMOTotalNum_zero] at hledger
  · intro p hp total hP
    rw [Int32.add_zero]
    exact hsave p hp total hP

theorem balanced_qcSave {shop' : Shop} (h : Balanced P shop) (hs : shop.qcSave = some shop')
    (hsave : ∀ p ∈ shop.saveOps, ∀ total, P shop.mainOrderCache.moDispatchNo total p.1 →
      P shop.mainOrderCache.moDispatchNo total (p.2.row p.1 p.1)) : Balanced P shop' := by
  unfold qcSave at hs
  split at hs
  · cases hs
  · cases hs
    exact balanced_onUpdate ((ledger_save h hsave).congr rfl rfl)

/-- The products in memory after the operations on them. -/
theorem snd_applyBoys (db : DB) (l : List (OrderBoy × BoyOp)) :
    (db.applyBoys l).2 = l.map fun p => p.2.mem p.1 := by
  induction l generalizing db with
  | nil => rfl
  | cons p l ih =>
    rw [DB.applyBoys, List.map_cons, ← ih]

/-- The books after the main order was stored with new cavities and cleared counters. What its
products were before does not matter, since all of them are stored again. -/
theorem ledger_adjust (h : Balanced P shop) {l : List (OrderBoy × BoyOp)} {o : Order}
    {type : NotebookType} (hfst : l.map Prod.fst = shop.mainOrderCache.orderBoyList)
    (hop : ∀ p ∈ l, ∃ v, p.2 = .onUpdatePcsSocketNum2 v)
    (hno : o.moDispatchNo = shop.mainOrderCache.moDispatchNo)
    (hflag : o.mainOrderFlag = shop.mainOrderCache.mainOrderFlag)
    (hboys : o.orderBoyList = (shop.db.applyBoys l).2.map clearBoy)
    (hadj : ∀ b ∈ shop.mainOrderCache.orderBoyList, ∀ v n,
      P o.moDispatchNo o.moTotalNum
        (DB.storedBoy o.moDispatchNo (clearBoy { b with pcsSocketNum2 := v }) n)) :
    Ledger P (((shop.db.applyBoys l).1.insertNotebook type).subimtOrder o) := by
  obtain ⟨row, hrow, -, hcache⟩ := h.fresh
  have hl := hfst.trans h.boys
  -- between the two writes only the other orders are known to be right
  have hother : Ledger (fun no total b => no ≠ o.moDispatchNo → P no total b)
      ((shop.db.applyBoys l).1.insertNotebook type) := by
    have hledger := Ledger.applyBoys (k := 0)
      (⟨h.ledger.seq, h.ledger.books.mono fun _ _ _ hb _ => hb⟩ :
        Ledger (fun no total b => no ≠ o.moDispatchNo → P no total b) shop.db) hl
      (fun p _ total _ hne => absurd hno.symm hne) ?_
    · rw [DB.onAddMOTotalNum_zero] at hledger
      exact hledger.congr rfl rfl
    · intro p hp
      obtain ⟨v, hv⟩ := hop p hp
      rw [hv]
      exact ⟨rfl, rfl⟩
  have hmem : ∀ p ∈ l, clearBoy (p.2.mem p.1) ∈ o.orderBoyList := by
    intro p hp
    rw [hboys, snd_applyBoys, List.map_map]
    exact List.mem_map_of_mem (f := clearBoy ∘ fun p => p.2.mem p.1) hp
  have hrow' : row ∈ ((shop.db.applyBoys l).1.insertNotebook type).order.rows := by
    show row ∈ (shop.db.applyBoys l).1.order.rows
    rw [DB.order_applyBoys]
    exact hrow
  refine Ledger.subimtOrder hother.seq (hother.books.subimtOrder ?_ ?_) hrow' ?_ ?_
  · intro c hc n
    rw [hboys, snd_applyBoys, List.map_map] at hc
    obtain ⟨p, hp, rfl⟩ := List.mem_map.mp hc
    obtain ⟨v, hv⟩ := hop p hp
    have hb : p.1 ∈ shop.mainOrderCache.orderBoyList := hfst ▸ List.mem_map_of_mem hp
    dsimp only [Function.comp]
    rw [hv]
    exact hadj p.1 hb v n
  · intro b hb
    obtain ⟨hb, hbno⟩ := DB.mem_boys.mp hb
    have hb' : b ∈ shop.db.orderBoy.rows.map (DB.applyAll l) := by
      rw [← DB.rows_applyBoys]
      exact hb
    obtain ⟨r, hr, rfl⟩ := List.mem_map.mp hb'
    obtain ⟨hin, hout⟩ := DB.applyAll_boys hl hr
    by_cases hrno : r.moDispatchNo = shop.mainOrderCache.moDispatchNo
    · obtain ⟨p, hp, rfl, heq⟩ := hin hrno
      obtain ⟨v, hv⟩ := hop p hp
      refine ⟨_, hmem p hp, ?_⟩
      rw [heq, hv]
      rfl
    · rw [hout hrno] at hbno
      exact absurd (hbno.trans hno) hrno
  · rw [hno, hcache]
  · rw [hflag, hcache]

/-- What a cavity adjustment does: nothing, if a cavity number is zero; else new cavities for the
products of the main order, and the order stored with its counters cleared. -/
theorem adjSocketNum_cases {shop' : Shop} {list : List Int32} {prior : QString}
    (hs : shop.adjSocketNum list prior = some shop') :
    (list.any (· == 0) = true ∧ shop' = shop) ∨
      (list.any (· == 0) = false ∧ ∃ (l : List (OrderBoy × BoyOp)) (o : Order),
        l.map Prod.fst = shop.mainOrderCache.orderBoyList ∧
        (∀ p ∈ l, ∃ v, p.2 = .onUpdatePcsSocketNum2 v) ∧
        o.moDispatchNo = shop.mainOrderCache.moDispatchNo ∧
        o.mainOrderFlag = shop.mainOrderCache.mainOrderFlag ∧ o.moTotalNum = 0 ∧
        o.orderBoyList = (shop.db.applyBoys l).2.map clearBoy ∧
        ∃ stored : Shop, shop' = { stored.onUpdate with db := brushChangeOrder stored.onUpdate.db } ∧
          stored.db = ((shop.db.applyBoys l).1.insertNotebook (.otherSetInfo 0x03)).subimtOrder o ∧
          stored.mesTable = shop.mesTable ∧ stored.loadedOrder = shop.loadedOrder) := by
  unfold adjSocketNum at hs
  split at hs
  · next hzero =>
    cases hs
    exact .inl ⟨hzero, rfl⟩
  · next hzero =>
    split at hs
    · cases hs
    · next hlen =>
      cases hs
      refine .inr ⟨Bool.eq_false_of_not_eq_true hzero,
        shop.mainOrderCache.orderBoyList.zip (list.map BoyOp.onUpdatePcsSocketNum2),
        clearOrder (shop.applyBoys (shop.mainOrderCache.orderBoyList.zip
          (list.map BoyOp.onUpdatePcsSocketNum2))).mainOrderCache prior,
        ?_, ?_, rfl, rfl, rfl, rfl, _, rfl, rfl, rfl, rfl⟩
      · apply List.map_fst_zip
        rw [List.length_map]
        omega
      · intro p hp
        obtain ⟨v, -, hv⟩ := List.mem_map.mp (List.of_mem_zip hp).2
        exact ⟨v, hv.symm⟩

/-- The cavity adjustment stores the main order anew. -/
theorem balanced_adjSocketNum {shop' : Shop} (h : Balanced P shop) {list : List Int32}
    {prior : QString} (hs : shop.adjSocketNum list prior = some shop')
    (hadj : list.any (· == 0) = false → ∀ b ∈ shop.mainOrderCache.orderBoyList, ∀ v n,
      P shop.mainOrderCache.moDispatchNo 0
        (DB.storedBoy shop.mainOrderCache.moDispatchNo (clearBoy { b with pcsSocketNum2 := v }) n)) :
    Balanced P shop' := by
  rcases adjSocketNum_cases hs with ⟨-, rfl⟩ |
    ⟨hzero, l, o, hfst, hop, hno, hflag, htotal, hboys, stored, rfl, hdb, -, -⟩
  · exact h
  · refine Balanced.congr (balanced_onUpdate ?_) rfl rfl rfl
    rw [hdb]
    apply ledger_adjust h hfst hop hno hflag hboys
    rw [hno, htotal]
    exact hadj hzero

end Shop

end ProgrammingPath.Mes
