import ProgrammingPath.Mes.GoodCount

/-!
# The books of the defects

The QC page shows, for each product and each reason, the defects counted so far, and takes new ones
from the operator. What it shows is a copy, loaded from the main order and loaded again only when
it is empty or was just saved. A save writes the copy plus the entries into the main order *of that
moment*. `OrderBoy` documents that `PCS_BadQty` is the sum of `PCS_BadData`.

The main order may have been replaced in between, by the server, by the operator or because it was
complete; then the counts of one order are written over those of another. `defects_of_meets` shows
that this, and a list of reasons shorter than the list of defects, are all that can go wrong: as
long as every save meets the order that was loaded, a save adds the entries to the lists of that
order, leaves all other products alone, and the documented sum holds throughout.
-/

namespace ProgrammingPath.Mes

open ProgrammingPath.Qt ProgrammingPath.Lib

/-! ## Lists of defects -/

/-- Two lists of counts added up; the shorter one counts as filled with zeros. -/
def plus : List Int32 → List Int32 → List Int32
  | [], ys => ys
  | x :: xs, [] => x :: xs
  | x :: xs, y :: ys => (x + y) :: plus xs ys

theorem sum_plus (xs ys : List Int32) : (plus xs ys).sum = xs.sum + ys.sum := by
  induction xs, ys using plus.induct with
  | case1 ys => simp [plus]
  | case2 x xs => simp [plus]
  | case3 x xs y ys ih =>
    simp only [plus, List.sum_cons, ih]
    grind

/-- The table of a product shows these counts. -/
def Shown (table : MESTable) (data : List Int32) : Prop :=
  ∀ j item, table[j]? = some item → item.value = data.getD j 0

/-- If no count is left out, what a save writes is the old counts plus the entries. -/
theorem sums_eq_plus {table : MESTable} {data : List Int32} (h : Shown table data)
    (hlen : data.length ≤ table.length) : table.sums = plus data table.inputs := by
  induction table generalizing data with
  | nil =>
    rw [List.length_eq_zero_iff.mp (Nat.le_zero.mp hlen)]
    rfl
  | cons item table ih =>
    have hhead := h 0 item rfl
    have htail : ∀ rest : List Int32, (∀ j, data.getD (j + 1) 0 = rest.getD j 0) →
        Shown table rest := by
      intro rest hrest j other hj
      rw [← hrest]
      exact h (j + 1) other hj
    cases data with
    | nil =>
      have hrest := ih (htail [] fun _ => rfl) (Nat.zero_le _)
      show (item.value + item.inputValue) :: MESTable.sums table =
        item.inputValue :: MESTable.inputs table
      rw [hrest, hhead]
      simp [plus]
    | cons d ds =>
      have hrest := ih (htail ds fun _ => rfl) (Nat.le_of_succ_le_succ hlen)
      show (item.value + item.inputValue) :: MESTable.sums table =
        (d + item.inputValue) :: plus ds (MESTable.inputs table)
      rw [hrest, hhead]
      rfl

/-- The documented relation: the number of defects is the sum of the list. -/
def Summed (_no : QString) (_total : Int32) (b : OrderBoy) : Prop :=
  b.pcsBadQty = b.pcsBadData.sum

/-! ## Products that keep their defects -/

/-- Every product of `db'` that is not new was in `db`, with the same defects. -/
def Steady (db db' : DB) : Prop :=
  db.orderBoy.seq ≤ db'.orderBoy.seq ∧ ∀ r' ∈ db'.orderBoy.rows, r'.id ≤ db.orderBoy.seq →
    ∃ r ∈ db.orderBoy.rows, r.id = r'.id ∧ r.pcsBadData = r'.pcsBadData

namespace Steady

variable {db db' db'' : DB}

theorem of_eq (h : db'.orderBoy = db.orderBoy) : Steady db db' := by
  unfold Steady
  rw [h]
  exact ⟨Nat.le_refl _, fun r hr _ => ⟨r, hr, rfl, rfl⟩⟩

theorem trans (h₁ : Steady db db') (h₂ : Steady db' db'') : Steady db db'' := by
  refine ⟨Nat.le_trans h₁.1 h₂.1, fun r'' hr'' hid => ?_⟩
  obtain ⟨r', hr', hid', hdata'⟩ := h₂.2 r'' hr'' (Nat.le_trans hid h₁.1)
  obtain ⟨r, hr, hid'', hdata⟩ := h₁.2 r' hr' (hid' ▸ hid)
  exact ⟨r, hr, hid''.trans hid', hdata.trans hdata'⟩

theorem removeOrder (db : DB) (no : QString) : Steady db (db.removeOrder no) :=
  ⟨Nat.le_refl _, fun r hr _ => ⟨r, (AutoTable.mem_delete.mp hr).1, rfl, rfl⟩⟩

theorem onUpdate (db : DB) : Steady db db.onUpdate.1 := of_eq DB.orderBoy_onUpdate

theorem brushChangeOrder (db : DB) : Steady db (Shop.brushChangeOrder db) := of_eq rfl

/-- Removing an order and numbering the rest. -/
theorem remove (db : DB) (no : QString) : Steady db (db.removeOrder no).sort :=
  (removeOrder db no).trans (of_eq (Books.orderBoy_sort _))

theorem seq_applyBoys (db : DB) (l : List (OrderBoy × BoyOp)) :
    (db.applyBoys l).1.orderBoy.seq = db.orderBoy.seq := by
  induction l generalizing db with
  | nil => rfl
  | cons p l ih =>
    rw [DB.applyBoys, ih]
    rfl

/-- What no operation of the list changes, stays. -/
theorem applyAll_frame {α : Type} (f : OrderBoy → α) {l : List (OrderBoy × BoyOp)}
    (h : ∀ p ∈ l, ∀ r, f (p.2.row p.1 r) = f r) (r : OrderBoy) : f (DB.applyAll l r) = f r := by
  induction l generalizing r with
  | nil => rfl
  | cons p l ih =>
    show f (DB.applyAll l (if r.id == p.1.id then p.2.row p.1 r else r)) = f r
    rw [ih (fun q hq => h q (by simp [hq]))]
    split
    · exact h p (by simp) r
    · rfl

theorem applyBoys (db : DB) {l : List (OrderBoy × BoyOp)}
    (h : ∀ p ∈ l, ∀ r, (p.2.row p.1 r).pcsBadData = r.pcsBadData) :
    Steady db (db.applyBoys l).1 := by
  refine ⟨(seq_applyBoys db l).ge, fun r' hr' _ => ?_⟩
  rw [DB.rows_applyBoys] at hr'
  obtain ⟨r, hr, rfl⟩ := List.mem_map.mp hr'
  refine ⟨r, hr, ?_, ?_⟩
  · exact (applyAll_frame OrderBoy.id (fun p _ r => p.2.row_id p.1 r) r).symm
  · exact (applyAll_frame OrderBoy.pcsBadData h r).symm

/-- Storing one product: a row keeps its number, and a new one gets a new number. -/
theorem mem_subimtBoy_id {no : QString} {c : OrderBoy} {r : OrderBoy}
    (hr : r ∈ (db.subimtBoy { c with moDispatchNo := no }).orderBoy.rows) :
    r ∈ db.orderBoy.rows ∨
      (∃ old ∈ db.orderBoy.rows, old.moDispatchNo = no ∧ old.pcsItemNo = c.pcsItemNo ∧
        r = DB.storedBoy no c old.id) ∨ r = DB.storedBoy no c (db.orderBoy.seq + 1) := by
  simp only [DB.subimtBoy, AutoTable.save] at hr
  cases hfind : db.orderBoy.rows.find?
      (fun r => r.moDispatchNo == no && r.pcsItemNo == c.pcsItemNo) with
  | none =>
    rw [hfind] at hr
    rcases AutoTable.mem_insert.mp hr with hr | hr
    · exact .inl hr
    · exact .inr (.inr hr)
  | some old =>
    rw [hfind] at hr
    have hsame : old.moDispatchNo = no ∧ old.pcsItemNo = c.pcsItemNo := by
      simpa using List.find?_some hfind
    obtain ⟨s, hs, rfl⟩ := AutoTable.mem_update.mp hr
    split
    · next hid =>
      refine .inr (.inl ⟨old, List.mem_of_find?_eq_some hfind, hsame.1, hsame.2, ?_⟩)
      rw [← (by simpa using hid : s.id = old.id)]
      rfl
    · exact .inl hs

theorem seq_subimtBoy (db : DB) (boy : OrderBoy) :
    db.orderBoy.seq ≤ (db.subimtBoy boy).orderBoy.seq := by
  simp only [DB.subimtBoy, AutoTable.save]
  split
  · exact Nat.le_refl _
  · exact Nat.le_succ _

/-- Storing products over rows with the same defects, or under new numbers. -/
theorem foldl_subimtBoy (db : DB) {no : QString} {l : List OrderBoy} {n : Nat}
    (hn : n ≤ db.orderBoy.seq)
    (h : ∀ c ∈ l, ∀ r ∈ db.orderBoy.rows, r.id ≤ n → r.moDispatchNo = no →
      r.pcsItemNo = c.pcsItemNo → r.pcsBadData = c.pcsBadData)
    (hdb' : db' = l.foldl (fun db boy => db.subimtBoy { boy with moDispatchNo := no }) db) :
    db.orderBoy.seq ≤ db'.orderBoy.seq ∧ ∀ r' ∈ db'.orderBoy.rows, r'.id ≤ n →
      ∃ r ∈ db.orderBoy.rows, r.id = r'.id ∧ r.pcsBadData = r'.pcsBadData := by
  induction l generalizing db with
  | nil =>
    subst hdb'
    exact ⟨Nat.le_refl _, fun r hr _ => ⟨r, hr, rfl, rfl⟩⟩
  | cons c l ih =>
    have hseq := seq_subimtBoy db { c with moDispatchNo := no }
    -- one product stored: the rows up to `n` are as before
    have hone : ∀ r ∈ (db.subimtBoy { c with moDispatchNo := no }).orderBoy.rows, r.id ≤ n →
        r ∈ db.orderBoy.rows ∨ (r.pcsItemNo = c.pcsItemNo ∧ ∃ old ∈ db.orderBoy.rows,
          old.id = r.id ∧ old.moDispatchNo = no ∧ old.pcsItemNo = c.pcsItemNo ∧
            old.pcsBadData = r.pcsBadData) := by
      intro r hr hid
      rcases mem_subimtBoy_id hr with hr | ⟨old, hold, hno, hitem, rfl⟩ | rfl
      · exact .inl hr
      · exact .inr ⟨rfl, old, hold, rfl, hno, hitem, h c (by simp) old hold hid hno hitem⟩
      · have hbig : db.orderBoy.seq + 1 ≤ n := hid
        omega
    obtain ⟨hseq', hrest⟩ := ih _ (Nat.le_trans hn hseq) (by
      intro d hd r hr hid hno hitem
      rcases hone r hr hid with hr | ⟨hsame, old, hold, hid', hno', hitem', hdata⟩
      · exact h d (by simp [hd]) r hr hid hno hitem
      · rw [← hdata]
        exact h d (by simp [hd]) old hold (hid' ▸ hid) hno' (hitem'.trans (hsame.symm.trans hitem)))
      hdb'
    refine ⟨Nat.le_trans hseq hseq', fun r' hr' hid => ?_⟩
    obtain ⟨r, hr, hid', hdata⟩ := hrest r' hr' hid
    rcases hone r hr (hid' ▸ hid) with hr | ⟨-, old, hold, hold', -, -, hdata'⟩
    · exact ⟨r, hr, hid', hdata⟩
    · exact ⟨old, hold, hold'.trans hid', hdata'.trans hdata⟩

/-- Storing an order whose products have the defects stored for them. -/
theorem subimtOrder {o : Order}
    (h : ∀ c ∈ o.orderBoyList, ∀ r ∈ db.orderBoy.rows, r.moDispatchNo = o.moDispatchNo →
      r.pcsItemNo = c.pcsItemNo → r.pcsBadData = c.pcsBadData) : Steady db (db.subimtOrder o) :=
  foldl_subimtBoy { db with order := db.order.replace o.toOrderRow } (Nat.le_refl _)
    (fun c hc r hr _ hno hitem => h c hc r hr hno hitem) rfl

end Steady

/-! ## The table of the page -/

/-- The table shows the products of the order it was loaded from, and as long as these are stored
they still have the defects shown. -/
structure Loaded (db : DB) (tables : List MESTable) (order : Order) : Prop where
  shown : List.Forall₂ (fun table b => Shown table b.pcsBadData) tables order.orderBoyList
  known : ∀ b ∈ order.orderBoyList, b.id ≤ db.orderBoy.seq ∧
    ∀ r ∈ db.orderBoy.rows, r.id = b.id → r.pcsBadData = b.pcsBadData

theorem Loaded.steady {db db' : DB} {tables : List MESTable} {order : Order}
    (h : Loaded db tables order) (hs : Steady db db') : Loaded db' tables order := by
  refine ⟨h.shown, fun b hb => ?_⟩
  obtain ⟨hid, hdata⟩ := h.known b hb
  refine ⟨Nat.le_trans hid hs.1, fun r' hr' heq => ?_⟩
  obtain ⟨r, hr, hid', hdata'⟩ := hs.2 r' hr' (heq ▸ hid)
  rw [← hdata']
  exact hdata r hr (hid'.trans heq)

/-- A table just loaded from stored products. -/
theorem loaded_loading {db : DB} (badCfg : Int32 → List QString) {order : Order}
    (h : ∀ b ∈ order.orderBoyList, b ∈ db.orderBoy.rows) :
    Loaded db (Shop.loading badCfg order) order := by
  constructor
  · rw [Shop.loading, List.forall₂_map_left_iff, List.forall₂_same]
    intro b _ j item hj
    rw [List.getElem?_map, List.getElem?_zipIdx] at hj
    obtain ⟨nj, hnj, rfl⟩ := Option.map_eq_some_iff.mp hj
    obtain ⟨name, -, rfl⟩ := Option.map_eq_some_iff.mp hnj
    rw [Nat.zero_add]
  · intro b hb
    refine ⟨db.orderBoy.le_seq b (h b hb), fun r hr heq => ?_⟩
    rw [AutoTable.eq_of_key_eq hr (h b hb) heq]

theorem DB.mem_onUpdate {db : DB} {b : OrderBoy} (hb : b ∈ db.onUpdate.2.orderBoyList) :
    b ∈ db.orderBoy.rows := by
  unfold DB.onUpdate at hb
  split at hb
  · next order horder =>
    obtain ⟨row, -, rfl⟩ := Option.map_eq_some_iff.mp horder
    exact (DB.mem_boys.mp hb).1
  · exact absurd hb List.not_mem_nil

namespace Shop

variable {shop : Shop}

/-- `Loaded`, for the table of the page. -/
def TableOk (shop : Shop) : Prop := Loaded shop.db shop.mesTable shop.loadedOrder

theorem tableOk_onUpdate (h : Loaded shop.db shop.mesTable shop.loadedOrder) :
    shop.onUpdate.TableOk := by
  unfold TableOk onUpdate onUpdateMainOrder
  split
  · apply loaded_loading
    intro b hb
    show b ∈ shop.db.onUpdate.1.orderBoy.rows
    rw [DB.orderBoy_onUpdate]
    exact DB.mem_onUpdate hb
  · exact h.steady (Steady.onUpdate shop.db)

/-- Change the database without touching the defects, and read the main order again. -/
theorem TableOk.onUpdate {shop' : Shop} (h : shop.TableOk) (hs : Steady shop.db shop'.db)
    (ht : shop'.mesTable = shop.mesTable) (hl : shop'.loadedOrder = shop.loadedOrder) :
    shop'.onUpdate.TableOk := by
  apply tableOk_onUpdate
  rw [ht, hl]
  exact h.steady hs

/-- Change only other tables of the database. -/
theorem TableOk.congr {shop' : Shop} (h : shop.TableOk) (hb : shop'.db.orderBoy = shop.db.orderBoy)
    (ht : shop'.mesTable = shop.mesTable) (hl : shop'.loadedOrder = shop.loadedOrder) :
    shop'.TableOk := by
  unfold TableOk
  rw [ht, hl]
  exact Loaded.steady h (Steady.of_eq hb)

theorem TableOk.onReplaceOrder (h : shop.TableOk) : shop.onReplaceOrder.TableOk := by
  have hread : ({ shop with
      db := (shop.db.removeOrder shop.mainOrderCache.moDispatchNo).sort } : Shop).onUpdate.TableOk :=
    h.onUpdate (Steady.remove _ _) rfl rfl
  exact hread.congr rfl rfl rfl

theorem TableOk.onOrderDelete (h : shop.TableOk) (no : QString) :
    (shop.onOrderDelete no).TableOk := by
  unfold Shop.onOrderDelete
  split
  · exact h
  · next order _ =>
    split
    · exact h
    · refine h.onUpdate ?_ rfl rfl
      refine Steady.trans ?_ (Steady.remove _ order.moDispatchNo)
      split
      · exact Steady.brushChangeOrder shop.db
      · exact Steady.of_eq rfl

theorem TableOk.onOrderReplace (h : shop.TableOk) : shop.onOrderReplace.TableOk := by
  refine h.onUpdate ?_ rfl rfl
  have hremove := (Steady.onUpdate shop.db).trans
    (Steady.remove shop.db.onUpdate.1 shop.db.onUpdate.2.moDispatchNo)
  exact (hremove.trans (Steady.onUpdate _)).trans (Steady.brushChangeOrder _)

theorem steady_materials (db : DB) (l : List Material) : Steady db (l.foldl DB.subimtMaterial db) :=
  .of_eq (foldl_frame DB.orderBoy (fun _ _ => by rfl) _ _)

theorem TableOk.onOrderSend {P : QString → Int32 → OrderBoy → Prop} (h : shop.TableOk)
    (hbooks : Books P shop.db) (order : Order) (materialList : List Material) :
    (shop.onOrderSend order materialList).TableOk := by
  unfold Shop.onOrderSend
  simp only
  split
  · exact Loaded.steady h (Steady.removeOrder _ _)
  · next hcount =>
    rw [DB.countMODispatchNo, not_not, List.countP_eq_zero] at hcount
    refine h.onUpdate ?_ rfl rfl
    refine Steady.trans (Steady.trans (Steady.removeOrder _ []) (Steady.subimtOrder ?_))
      (steady_materials _ materialList)
    -- the order is new, so nothing is stored under its number
    intro c _ r hr hno _
    obtain ⟨row, hrow, heq⟩ := (hbooks.removeOrder []).owned r hr
    exact absurd (by simpa using heq.trans hno) (hcount row hrow)

theorem TableOk.onAddModeCount (h : shop.TableOk) (haveStopCard autoChangeOrder : Bool)
    (producted : Producted) :
    (shop.onAddModeCount haveStopCard autoChangeOrder producted).TableOk := by
  have hadd : Steady shop.db (shop.db.onAddMOTotalNum shop.mainOrderCache.moDispatchNo 1) :=
    Steady.of_eq rfl
  have hboys : Steady (shop.db.onAddMOTotalNum shop.mainOrderCache.moDispatchNo 1)
      ((shop.db.onAddMOTotalNum shop.mainOrderCache.moDispatchNo 1).applyBoys
        (shop.mainOrderCache.orderBoyList.map fun b =>
          (b, .onAddCurClassProductNo (1 * b.pcsSocketNum2)))).1 := by
    apply Steady.applyBoys
    intro p hp r
    obtain ⟨b, -, rfl⟩ := List.mem_map.mp hp
    rfl
  have hcount : (shop.countMould producted).TableOk :=
    Loaded.steady h ((hadd.trans hboys).trans (Steady.of_eq rfl))
  unfold Shop.onAddModeCount
  split
  · exact h
  · apply tableOk_onUpdate
    split
    · exact hcount.onReplaceOrder
    · exact hcount

theorem TableOk.onReplaceClass (h : shop.TableOk) : shop.onReplaceClass.TableOk := by
  refine h.onUpdate (Steady.applyBoys _ ?_) rfl rfl
  intro p hp r
  obtain ⟨b, -, rfl⟩ := List.mem_map.mp hp
  rfl

/-- The cavity adjustment stores the products with the defects they had. -/
theorem TableOk.adjSocketNum {P : QString → Int32 → OrderBoy → Prop} {shop' : Shop}
    (h : shop.TableOk) (hb : Balanced P shop) {list : List Int32} {prior : QString}
    (hs : shop.adjSocketNum list prior = some shop') : shop'.TableOk := by
  rcases adjSocketNum_cases hs with ⟨-, rfl⟩ |
    ⟨-, l, o, hfst, hop, hno, -, -, hboys, stored, rfl, hdb, htable, hloaded⟩
  · exact h
  · have hframe : ∀ {α : Type} (f : OrderBoy → α), (∀ v r, f { r with pcsSocketNum2 := v } = f r) →
        ∀ r, f (DB.applyAll l r) = f r := by
      intro α f hf r
      apply Steady.applyAll_frame f
      intro p hp r
      obtain ⟨v, hv⟩ := hop p hp
      rw [hv]
      exact hf v r
    have happly : Steady shop.db (shop.db.applyBoys l).1 := by
      apply Steady.applyBoys
      intro p hp r
      obtain ⟨v, hv⟩ := hop p hp
      rw [hv]
      rfl
    have hstore : Steady ((shop.db.applyBoys l).1.insertNotebook (.otherSetInfo 0x03)) stored.db := by
      rw [hdb]
      apply Steady.subimtOrder
      intro c hc r' hr' hrno hitem
      have hr'' : r' ∈ shop.db.orderBoy.rows.map (DB.applyAll l) := by
        rw [← DB.rows_applyBoys]
        exact hr'
      obtain ⟨r, hr, rfl⟩ := List.mem_map.mp hr''
      rw [hboys, snd_applyBoys, List.map_map] at hc
      obtain ⟨p, hp, rfl⟩ := List.mem_map.mp hc
      obtain ⟨v, hv⟩ := hop p hp
      have hp' : p.1 ∈ shop.mainOrderCache.orderBoyList := hfst ▸ List.mem_map_of_mem hp
      rw [hb.boys, DB.mem_boys] at hp'
      -- both are the one product with this number and this item
      rw [hframe OrderBoy.moDispatchNo (fun _ _ => rfl), hno] at hrno
      rw [hframe OrderBoy.pcsItemNo (fun _ _ => rfl)] at hitem
      rw [hframe OrderBoy.pcsBadData (fun _ _ => rfl)]
      dsimp only [Function.comp] at hitem ⊢
      rw [hv] at hitem ⊢
      rw [hb.ledger.books.single r hr p.1 hp'.1 (hrno.trans hp'.2.symm) hitem]
      rfl
    have hread : stored.onUpdate.TableOk :=
      h.onUpdate ((happly.trans (Steady.of_eq rfl)).trans hstore) htable hloaded
    exact hread.congr rfl rfl rfl

theorem forall₂_set {α β : Type} {R : α → β → Prop} {l : List α} {m : List β}
    (h : List.Forall₂ R l m) {i : Nat} {a : α} (ha : ∀ b, m[i]? = some b → R a b) :
    List.Forall₂ R (l.set i a) m := by
  induction h generalizing i with
  | nil => exact .nil
  | cons hab _ ih =>
    cases i with
    | zero => exact .cons (ha _ rfl) ‹_›
    | succ i => exact .cons hab (ih ha)

theorem TableOk.inputCell {shop' : Shop} (h : shop.TableOk) {boyIndex index : Nat} {v : Int32}
    (hs : shop.inputCell boyIndex index v = some shop') : shop'.TableOk := by
  unfold Shop.inputCell at hs
  split at hs
  · cases hs
    exact h
  · next table htable =>
    split at hs
    · cases hs
      exact h
    · next item hitem =>
      split at hs
      · cases hs
      · dsimp only at hs
        split at hs
        · cases hs
          exact h
        · cases hs
          refine ⟨forall₂_set h.shown fun b hb j other hj => ?_, h.known⟩
          have hshown : Shown table b.pcsBadData := by
            obtain ⟨hi, rfl⟩ := List.getElem?_eq_some_iff.mp htable
            obtain ⟨hi', rfl⟩ := List.getElem?_eq_some_iff.mp hb
            exact h.shown.get hi hi'
          rw [List.getElem?_set] at hj
          split at hj
          · next heq =>
            subst heq
            split at hj
            · cases hj
              exact hshown index item hitem
            · cases hj
          · exact hshown j other hj

/-! ## Saving -/

/-- The condition on a step: an order with an empty number arrives only when nothing else is
stored; an order arrives with its defects summed up; and a save meets the order that the table was
loaded from, with a count shown for each of its defects. -/
def DefectOk (shop : Shop) : Act → Prop
  | .orderFrame pack => ∀ request ∈ MESOrderRequest.decode shop.db pack,
    shop.NumberOk request.order.moDispatchNo ∧
      ∀ c ∈ request.order.orderBoyList, c.pcsBadQty = c.pcsBadData.sum
  | .qcSave => shop.mainOrderCache.moDispatchNo = shop.loadedOrder.moDispatchNo ∧
    shop.mainOrderCache.orderBoyList.map (·.id) = shop.loadedOrder.orderBoyList.map (·.id) ∧
      ∀ bt ∈ shop.mainOrderCache.orderBoyList.zip shop.mesTable,
        bt.1.pcsBadData.length ≤ bt.2.length
  | _ => True

instance (shop : Shop) : (a : Act) → Decidable (shop.DefectOk a)
  | .orderFrame pack => inferInstanceAs (Decidable (∀ request ∈ MESOrderRequest.decode shop.db pack,
    shop.NumberOk request.order.moDispatchNo ∧
      ∀ c ∈ request.order.orderBoyList, c.pcsBadQty = c.pcsBadData.sum))
  | .qcSave => inferInstanceAs (Decidable (_ ∧ _ ∧ ∀ _ ∈ _, _))
  | .orderDelete _ | .orderReplace | .delete | .addModeCount _ _ _ | .replaceClass
  | .inputCell _ _ _ | .adjSocketNum _ _ => inferInstanceAs (Decidable True)

variable {P : QString → Int32 → OrderBoy → Prop}

/-- A product of the main order and its table, when the table belongs to the main order: the save
adds the entries to its defects. -/
theorem sums_of_defectOk (h : shop.TableOk) (hb : Balanced P shop) (hok : shop.DefectOk .qcSave)
    {i : Nat} {b : OrderBoy} {table : MESTable} (hi : shop.mainOrderCache.orderBoyList[i]? = some b)
    (ht : shop.mesTable[i]? = some table) : table.sums = plus b.pcsBadData table.inputs := by
  obtain ⟨-, hids, hlen⟩ := hok
  obtain ⟨l, hl, hid⟩ : ∃ l, shop.loadedOrder.orderBoyList[i]? = some l ∧ l.id = b.id := by
    have hmap : (shop.loadedOrder.orderBoyList.map (·.id))[i]? = some b.id := by
      rw [← hids, List.getElem?_map, hi]
      rfl
    rw [List.getElem?_map] at hmap
    exact Option.map_eq_some_iff.mp hmap
  have hstored : b ∈ shop.db.orderBoy.rows := by
    have hmem := List.mem_of_getElem? hi
    rw [hb.boys] at hmem
    exact (DB.mem_boys.mp hmem).1
  have hdata := (h.known l (List.mem_of_getElem? hl)).2 b hstored hid.symm
  have hshown : Shown table l.pcsBadData := by
    obtain ⟨hi', rfl⟩ := List.getElem?_eq_some_iff.mp ht
    obtain ⟨hi'', rfl⟩ := List.getElem?_eq_some_iff.mp hl
    exact h.shown.get hi' hi''
  rw [← hdata] at hshown
  apply sums_eq_plus hshown
  exact hlen (b, table) (List.mem_of_getElem? (List.getElem?_zip_eq_some.mpr ⟨hi, ht⟩))

/-- The members of `saveOps`. -/
theorem mem_saveOps {p : OrderBoy × BoyOp} (hp : p ∈ shop.saveOps) :
    ∃ i : Nat, shop.mainOrderCache.orderBoyList[i]? = some p.1 ∧
      p.2 = (shop.mesTable[i]?).elim BoyOp.skip saveOp := by
  obtain ⟨bi, hbi, rfl⟩ := List.mem_map.mp hp
  exact ⟨bi.2, List.mem_zipIdx_iff_getElem?.mp hbi, rfl⟩

theorem summed_saveOps (h : shop.TableOk) (hb : Balanced Summed shop)
    (hok : shop.DefectOk .qcSave) {p : OrderBoy × BoyOp} (hp : p ∈ shop.saveOps) {no : QString}
    {total : Int32} (hsum : Summed no total p.1) : Summed no total (p.2.row p.1 p.1) := by
  obtain ⟨i, hi, hop⟩ := mem_saveOps hp
  rw [hop]
  cases ht : shop.mesTable[i]? with
  | none => exact hsum
  | some table =>
    have hsums := sums_of_defectOk h hb hok hi ht
    show p.1.pcsBadQty + table.inputs.sum = table.sums.sum
    rw [hsums, sum_plus, hsum]

/-- A save changes the rows of the main order only. -/
theorem rows_qcSave {shop' : Shop} (hs : shop.qcSave = some shop') :
    shop'.db.orderBoy.rows = shop.db.orderBoy.rows.map (DB.applyAll shop.saveOps) := by
  unfold qcSave at hs
  split at hs
  · cases hs
  · cases hs
    rw [db_onUpdate, DB.orderBoy_onUpdate]
    exact DB.rows_applyBoys shop.db shop.saveOps

/-- After a save the table is loaded from what was just written. -/
theorem TableOk.qcSave {shop' : Shop} (hb : Balanced P shop) (hs : shop.qcSave = some shop') :
    shop'.TableOk := by
  unfold Shop.qcSave at hs
  split at hs
  · cases hs
  · cases hs
    apply tableOk_onUpdate
    apply loaded_loading
    intro b hb'
    have hb'' : b ∈ shop.saveOps.map fun p => p.2.mem p.1 := by
      rw [← snd_applyBoys shop.db]
      exact hb'
    obtain ⟨p, hp, rfl⟩ := List.mem_map.mp hb''
    show p.2.mem p.1 ∈ (shop.db.applyBoys shop.saveOps).1.orderBoy.rows
    have hrow : p.2.mem p.1 = p.2.row p.1 p.1 := by
      obtain ⟨i, -, hop⟩ := mem_saveOps hp
      rw [hop]
      cases shop.mesTable[i]? with
      | none => rfl
      | some table => rfl
    have hp₁ : p.1 ∈ shop.db.boys shop.mainOrderCache.moDispatchNo := by
      rw [← hb.boys, ← map_fst_saveOps]
      exact List.mem_map_of_mem hp
    rw [hrow, DB.rows_applyBoys,
      ← DB.applyAll_of_mem (DB.nodup_id_boys (map_fst_saveOps.trans hb.boys)) hp]
    exact List.mem_map_of_mem (DB.mem_boys.mp hp₁).1

/-! ## Steps and runs -/

/-- Every step keeps the sums, and the table in step with the order it was loaded from. -/
theorem summed_step {shop' : Shop} {a : Act} (h : Balanced Summed shop ∧ shop.TableOk)
    (hok : shop.DefectOk a) (hs : shop.step a = some shop') :
    Balanced Summed shop' ∧ shop'.TableOk := by
  obtain ⟨hb, ht⟩ := h
  cases a with
  | orderFrame pack =>
    cases hs
    unfold onOrderFrame
    cases hdecode : MESOrderRequest.decode shop.db pack with
    | none => exact ⟨hb, ht⟩
    | some request =>
      obtain ⟨hno, hsum⟩ := hok request hdecode
      refine ⟨balanced_onOrderSend hb _ hno fun _ c hc n => hsum c hc, ?_⟩
      exact ht.onOrderSend hb.ledger.books _ _
  | orderDelete no =>
    cases hs
    exact ⟨balanced_onOrderDelete hb no, ht.onOrderDelete no⟩
  | orderReplace =>
    cases hs
    exact ⟨balanced_onOrderReplace hb.ledger, ht.onOrderReplace⟩
  | delete =>
    cases hs
    exact ⟨balanced_onDelete hb.ledger, ht.onUpdate (Steady.remove _ _) rfl rfl⟩
  | addModeCount haveStopCard autoChangeOrder producted =>
    cases hs
    exact ⟨balanced_onAddModeCount hb _ _ _ (fun _ _ _ hP => hP), ht.onAddModeCount _ _ _⟩
  | replaceClass =>
    cases hs
    exact ⟨balanced_onReplaceClass hb (fun _ _ _ hP => hP), ht.onReplaceClass⟩
  | inputCell boyIndex index v => exact ⟨hb.inputCell hs, ht.inputCell hs⟩
  | qcSave =>
    exact ⟨balanced_qcSave hb hs (fun p hp _ hP => summed_saveOps ht hb hok hp hP),
      TableOk.qcSave hb hs⟩
  | adjSocketNum list prior =>
    exact ⟨balanced_adjSocketNum hb hs (fun _ b hb' _ _ => hb.cache b hb'), ht.adjSocketNum hb hs⟩

/-- What a save does when it meets the order that the table was loaded from. -/
theorem qcSave_spec {shop' : Shop} (hb : Balanced P shop) (ht : shop.TableOk)
    (hok : shop.DefectOk .qcSave) (hs : shop.qcSave = some shop') :
    (∀ r, r.moDispatchNo ≠ shop.loadedOrder.moDispatchNo →
      (r ∈ shop.db.orderBoy.rows ↔ r ∈ shop'.db.orderBoy.rows)) ∧
    ∀ (i : Nat) b table, shop.loadedOrder.orderBoyList[i]? = some b →
      shop.mesTable[i]? = some table → ∃ r ∈ shop.db.orderBoy.rows, r.id = b.id ∧
        ∃ r' ∈ shop'.db.orderBoy.rows, r'.id = b.id ∧
          r'.pcsBadData = plus r.pcsBadData table.inputs := by
  have hl := map_fst_saveOps.trans hb.boys
  rw [rows_qcSave hs]
  constructor
  · intro r hno
    rw [← hok.1] at hno
    constructor
    · intro hr
      rw [← (DB.applyAll_boys hl hr).2 hno]
      exact List.mem_map_of_mem hr
    · intro hr
      obtain ⟨s, hs, rfl⟩ := List.mem_map.mp hr
      -- a row that was changed belongs to the main order, and still does
      by_cases hsno : s.moDispatchNo = shop.mainOrderCache.moDispatchNo
      · obtain ⟨p, hp, rfl, heq⟩ := (DB.applyAll_boys hl hs).1 hsno
        rw [heq, (key_saveOps hp).1] at hno
        exact absurd hsno hno
      · rwa [(DB.applyAll_boys hl hs).2 hsno]
  · intro i b table hi htable
    -- the product in the cache at this place is the one that was loaded
    obtain ⟨r, hr, hid⟩ : ∃ r, shop.mainOrderCache.orderBoyList[i]? = some r ∧ r.id = b.id := by
      have hmap : (shop.mainOrderCache.orderBoyList.map (·.id))[i]? = some b.id := by
        rw [hok.2.1, List.getElem?_map, hi]
        rfl
      rw [List.getElem?_map] at hmap
      exact Option.map_eq_some_iff.mp hmap
    have hstored := List.mem_of_getElem? hr
    rw [hb.boys] at hstored
    have hop : (r, saveOp table) ∈ shop.saveOps := by
      refine List.mem_map.mpr ⟨(r, i), List.mem_zipIdx_iff_getElem?.mpr hr, ?_⟩
      dsimp only
      rw [htable]
      rfl
    refine ⟨r, (DB.mem_boys.mp hstored).1, hid, _, List.mem_map_of_mem (DB.mem_boys.mp hstored).1, ?_⟩
    rw [DB.applyAll_of_mem (DB.nodup_id_boys hl) hop]
    exact ⟨hid, sums_of_defectOk ht hb hok hr htable⟩

/-- **The books of the defects.** Take any run from the empty database in which orders arrive with
their defects summed up, no order with an empty number is put among others, and every save meets
the order that the table was loaded from, with a count shown for each of its defects. In the state
reached every product, in the database and in memory, has as many defects as its list adds up to;
and a further save that meets the condition changes only products of the order that the table was
loaded from, and adds to the list of each of them what was entered. -/
theorem defects_of_meets (badCfg : Int32 → List QString) (acts : List Act) (t : Shop)
    (hok : Meets step DefectOk (init badCfg) acts) (hrun : run step (init badCfg) acts = some t) :
    (∀ b ∈ t.db.orderBoy.rows, b.pcsBadQty = b.pcsBadData.sum) ∧
    (∀ b ∈ t.mainOrderCache.orderBoyList, b.pcsBadQty = b.pcsBadData.sum) ∧
    ∀ t', t.DefectOk .qcSave → t.step .qcSave = some t' →
      (∀ r, r.moDispatchNo ≠ t.loadedOrder.moDispatchNo →
        (r ∈ t.db.orderBoy.rows ↔ r ∈ t'.db.orderBoy.rows)) ∧
      ∀ (i : Nat) b table, t.loadedOrder.orderBoyList[i]? = some b → t.mesTable[i]? = some table →
        ∃ r ∈ t.db.orderBoy.rows, r.id = b.id ∧ ∃ r' ∈ t'.db.orderBoy.rows, r'.id = b.id ∧
          r'.pcsBadData = plus r.pcsBadData table.inputs := by
  have hinit : (init badCfg).TableOk := tableOk_onUpdate ⟨.nil, fun b hb => absurd hb List.not_mem_nil⟩
  obtain ⟨hb, ht⟩ : Balanced Summed t ∧ t.TableOk :=
    run_invariant (fun _ _ _ h ho hs => summed_step h ho hs)
      ⟨balanced_init Summed badCfg, hinit⟩ hok hrun
  refine ⟨fun b hmem => ?_, hb.cache, fun t' hsave hs => qcSave_spec hb ht hsave hs⟩
  obtain ⟨row, hrow, hno⟩ := hb.ledger.books.owned b hmem
  exact hb.ledger.books.count row hrow b hmem hno.symm

/-- One defect of one order, saved while it is the main order. -/
theorem defects_of_meets_one_order :
    ∃ t, run step (init fun _ => [[82]]) [.orderFrame (orderPack 65), .addModeCount false true {},
        .inputCell 0 0 1, .qcSave, .orderFrame (orderPack 66)] = some t ∧
      t.db.orderBoy.rows.map (·.pcsBadQty) = [1, 0] ∧
      ∀ b ∈ t.db.orderBoy.rows, b.pcsBadQty = b.pcsBadData.sum := by
  have hend : (run step (init fun _ => [[82]]) [.orderFrame (orderPack 65),
      .addModeCount false true {}, .inputCell 0 0 1, .qcSave, .orderFrame (orderPack 66)]).any
      (fun t => t.db.orderBoy.rows.map (·.pcsBadQty) = [1, 0]) = true := by decide +kernel
  obtain ⟨t, ht, hqty⟩ := (Option.any_eq_true _ _).mp hend
  refine ⟨t, ht, by simpa using hqty, ?_⟩
  exact (defects_of_meets (fun _ => [[82]]) _ t (by decide +kernel) ht).1

/-- A defect is entered for the first of two orders, the server asks for the next order, and only
then the defect is saved: it is written to the second order. -/
theorem defect_saved_to_next_order :
    ¬ ∀ (badCfg : Int32 → List QString) (acts : List Act) (t t' : Shop),
      run step (init badCfg) acts = some t → t.step .qcSave = some t' →
        ∀ r ∈ t.db.orderBoy.rows, r.moDispatchNo ≠ t.loadedOrder.moDispatchNo →
          r ∈ t'.db.orderBoy.rows := by
  intro h
  have hend : (run step (init fun _ => [[82]]) [.orderFrame (orderPack 65),
      .orderFrame (orderPack 66), .addModeCount false true {}, .inputCell 0 0 1, .orderReplace]).any
      (fun t => (t.step .qcSave).any fun t' => ¬ ∀ r ∈ t.db.orderBoy.rows,
        r.moDispatchNo ≠ t.loadedOrder.moDispatchNo → r ∈ t'.db.orderBoy.rows) = true := by
    decide +kernel
  obtain ⟨t, ht, hsave⟩ := (Option.any_eq_true _ _).mp hend
  obtain ⟨t', ht', hnot⟩ := (Option.any_eq_true _ _).mp hsave
  exact of_decide_eq_true hnot (h _ _ t t' ht ht')

end Shop

end ProgrammingPath.Mes
