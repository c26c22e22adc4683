import ProgrammingPath.Lib.Run
import ProgrammingPath.Mes.OrderSeq

/-!
# Keeping the books of the products

A product is a row of `tb_orderBoy` that belongs to a row of `tb_order` by its dispatch number, and
the counters of the two are related. `Books P` says that a relation `P` between the mould count of
an order and a product of it holds for all of them, that no product is without its order, and that
a product is stored once. The lemmas of this file say, for any `P`, which operations keep the books;
what a count of good pieces or a list of defects is, is left to the modules that use them.
-/

namespace ProgrammingPath.Mes

open ProgrammingPath.Qt ProgrammingPath.Lib

structure Books (P : QString → Int32 → OrderBoy → Prop) (db : DB) : Prop where
  count : ∀ row ∈ db.order.rows, ∀ b ∈ db.orderBoy.rows, b.moDispatchNo = row.moDispatchNo →
    P row.moDispatchNo row.moTotalNum b
  owned : ∀ b ∈ db.orderBoy.rows, ∃ row ∈ db.order.rows, row.moDispatchNo = b.moDispatchNo
  single : ∀ a ∈ db.orderBoy.rows, ∀ b ∈ db.orderBoy.rows, a.moDispatchNo = b.moDispatchNo →
    a.pcsItemNo = b.pcsItemNo → a = b

namespace DB

theorem mem_boys {db : DB} {no : QString} {b : OrderBoy} :
    b ∈ db.boys no ↔ b ∈ db.orderBoy.rows ∧ b.moDispatchNo = no := by
  simp [boys]

/-! ## Storing an order -/

/-- The row that `OrderBoy::subimt` stores for a product of the order `no`. -/
def storedBoy (no : QString) (c : OrderBoy) (n : Nat) : OrderBoy :=
  { c with moDispatchNo := no, id := n, adjDefCount := 0 }

/-- Products are stored once. -/
def Single (db : DB) : Prop := ∀ a ∈ db.orderBoy.rows, ∀ b ∈ db.orderBoy.rows,
  a.moDispatchNo = b.moDispatchNo → a.pcsItemNo = b.pcsItemNo → a = b

/-- Storing a product replaces the row of that product and no other. -/
theorem mem_subimtBoy {db : DB} (h : db.Single) (no : QString) (c : OrderBoy) :
    ∃ n, ∀ r ∈ (db.subimtBoy { c with moDispatchNo := no }).orderBoy.rows,
      (r ∈ db.orderBoy.rows ∧ (r.moDispatchNo ≠ no ∨ r.pcsItemNo ≠ c.pcsItemNo)) ∨
        r = storedBoy no c n := by
  simp only [subimtBoy, AutoTable.save]
  cases hfind : db.orderBoy.rows.find?
      (fun r => r.moDispatchNo == no && r.pcsItemNo == c.pcsItemNo) with
  | none =>
    refine ⟨db.orderBoy.seq + 1, fun r hr => ?_⟩
    rcases AutoTable.mem_insert.mp hr with hr | hr
    · have hne := List.find?_eq_none.mp hfind r hr
      refine .inl ⟨hr, ?_⟩
      by_cases hno : r.moDispatchNo = no
      · right
        simpa [hno] using hne
      · exact .inl hno
    · exact .inr hr
  | some old =>
    have hold := List.mem_of_find?_eq_some hfind
    have hsame : old.moDispatchNo = no ∧ old.pcsItemNo = c.pcsItemNo := by
      simpa using List.find?_some hfind
    refine ⟨old.id, fun r hr => ?_⟩
    obtain ⟨s, hs, rfl⟩ := AutoTable.mem_update.mp hr
    by_cases hid : s.id = old.id
    · rw [if_pos (by simpa using hid)]
      exact .inr (by rw [hid]; rfl)
    · rw [if_neg (by simpa using hid)]
      refine .inl ⟨hs, ?_⟩
      -- a second row for this product would have the number of the first
      by_contra hboth
      rw [not_or, not_not, not_not] at hboth
      exact hid (congrArg OrderBoy.id
        (h s hs old hold (hboth.1.trans hsame.1.symm) (hboth.2.trans hsame.2.symm)))

theorem single_subimtBoy {db : DB} (h : db.Single) (no : QString) (c : OrderBoy) :
    (db.subimtBoy { c with moDispatchNo := no }).Single := by
  obtain ⟨n, hmem⟩ := mem_subimtBoy h no c
  intro a ha b hb hno hitem
  rcases hmem a ha with ⟨ha, hane⟩ | rfl <;> rcases hmem b hb with ⟨hb, hbne⟩ | rfl
  · exact h a ha b hb hno hitem
  · rcases hane with hane | hane
    · exact absurd hno hane
    · exact absurd hitem hane
  · rcases hbne with hbne | hbne
    · exact absurd hno.symm hbne
    · exact absurd hitem.symm hbne
  · rfl

/-- Storing a list of products: every row is one of them, or one that is not among them. -/
theorem mem_foldl_subimtBoy {db : DB} (h : db.Single) (no : QString) (l : List OrderBoy) :
    (l.foldl (fun db boy => db.subimtBoy { boy with moDispatchNo := no }) db).Single ∧
      ∀ r ∈ (l.foldl (fun db boy => db.subimtBoy { boy with moDispatchNo := no }) db).orderBoy.rows,
        (∃ c ∈ l, ∃ n, r = storedBoy no c n) ∨
          (r ∈ db.orderBoy.rows ∧ (r.moDispatchNo ≠ no ∨ ∀ c ∈ l, r.pcsItemNo ≠ c.pcsItemNo)) := by
  induction l generalizing db with
  | nil => exact ⟨h, fun r hr => .inr ⟨hr, .inr (by simp)⟩⟩
  | cons c l ih =>
    obtain ⟨n, hmem⟩ := mem_subimtBoy h no c
    obtain ⟨hsingle, hrest⟩ := ih (single_subimtBoy h no c)
    refine ⟨hsingle, fun r hr => ?_⟩
    rcases hrest r hr with ⟨d, hd, m, rfl⟩ | ⟨hr, hother⟩
    · exact .inl ⟨d, by simp [hd], m, rfl⟩
    · rcases hmem r hr with ⟨hr, hne⟩ | rfl
      · refine .inr ⟨hr, ?_⟩
        rcases hne with hne | hne
        · exact .inl hne
        · rcases hother with hother | hother
          · exact .inl hother
          · right
            intro d hd
            rcases List.mem_cons.mp hd with rfl | hd
            · exact hne
            · exact hother d hd
      · exact .inl ⟨c, by simp, n, rfl⟩

/-! ## Operations on single products -/

/-- A row after the operations of a list. -/
def applyAll (l : List (OrderBoy × BoyOp)) (r : OrderBoy) : OrderBoy :=
  l.foldl (fun r p => if r.id == p.1.id then p.2.row p.1 r else r) r

theorem rows_applyBoys (db : DB) (l : List (OrderBoy × BoyOp)) :
    (db.applyBoys l).1.orderBoy.rows = db.orderBoy.rows.map (applyAll l) := by
  induction l generalizing db with
  | nil =>
    have hid : applyAll [] = id := rfl
    rw [hid, List.map_id]
    rfl
  | cons p l ih =>
    rw [applyBoys, ih]
    show (db.orderBoy.rows.map _).map _ = _
    rw [List.map_map]
    rfl

theorem order_applyBoys (db : DB) (l : List (OrderBoy × BoyOp)) :
    (db.applyBoys l).1.order = db.order := by
  induction l generalizing db with
  | nil => rfl
  | cons p l ih =>
    rw [applyBoys, ih]
    rfl

theorem onAddMOTotalNum_zero (db : DB) (no : QString) : db.onAddMOTotalNum no 0 = db := by
  rw [onAddMOTotalNum, Table.update_of_forall]
  intro r _ _
  simp

theorem applyAll_of_not_mem {l : List (OrderBoy × BoyOp)} {r : OrderBoy}
    (h : ∀ p ∈ l, p.1.id ≠ r.id) : applyAll l r = r := by
  induction l generalizing r with
  | nil => rfl
  | cons p l ih =>
    show applyAll l (if r.id == p.1.id then p.2.row p.1 r else r) = r
    have hp : r.id ≠ p.1.id := fun heq => h p (by simp) heq.symm
    rw [if_neg (by simpa using hp)]
    exact ih (fun q hq => h q (by simp [hq]))

theorem applyAll_of_mem {l : List (OrderBoy × BoyOp)} {p : OrderBoy × BoyOp}
    (hnd : (l.map (·.1.id)).Nodup) (hp : p ∈ l) : applyAll l p.1 = p.2.row p.1 p.1 := by
  induction l with
  | nil => exact absurd hp List.not_mem_nil
  | cons q l ih =>
    rw [List.map_cons, List.nodup_cons] at hnd
    show applyAll l (if p.1.id == q.1.id then q.2.row q.1 p.1 else p.1) = _
    rcases List.mem_cons.mp hp with rfl | hp
    · rw [if_pos (by simp)]
      -- no later operation is for this product
      apply applyAll_of_not_mem
      intro r hr heq
      apply hnd.1
      rw [← p.2.row_id p.1 p.1, ← heq]
      exact List.mem_map_of_mem hr
    · have hne : p.1.id ≠ q.1.id := by
        intro heq
        apply hnd.1
        rw [← heq]
        exact List.mem_map_of_mem hp
      rw [if_neg (by simpa using hne)]
      exact ih hnd.2 hp

theorem nodup_id_boys {db : DB} {no : QString} {l : List (OrderBoy × BoyOp)}
    (hl : l.map Prod.fst = db.boys no) : (l.map (·.1.id)).Nodup := by
  have hmap : l.map (·.1.id) = (db.boys no).map OrderBoy.id := by
    rw [← hl, List.map_map]
    rfl
  rw [hmap]
  exact (db.orderBoy.sorted.imp Nat.ne_of_lt).sublist (List.filter_sublist.map _)

/-- The operations on the products of an order change these products, and no others. -/
theorem applyAll_boys {db : DB} {no : QString} {l : List (OrderBoy × BoyOp)}
    (hl : l.map Prod.fst = db.boys no) {r : OrderBoy} (hr : r ∈ db.orderBoy.rows) :
    (r.moDispatchNo = no → ∃ p ∈ l, p.1 = r ∧ applyAll l r = p.2.row r r) ∧
      (r.moDispatchNo ≠ no → applyAll l r = r) := by
  have hids := nodup_id_boys hl
  constructor
  · intro hno
    have hmem : r ∈ l.map Prod.fst := hl ▸ mem_boys.mpr ⟨hr, hno⟩
    obtain ⟨p, hp, rfl⟩ := List.mem_map.mp hmem
    exact ⟨p, hp, rfl, applyAll_of_mem hids hp⟩
  · intro hno
    apply applyAll_of_not_mem
    intro p hp heq
    have hpb := mem_boys.mp (hl ▸ List.mem_map_of_mem hp : p.1 ∈ db.boys no)
    rw [← AutoTable.eq_of_key_eq hpb.1 hr heq] at hno
    exact hno hpb.2

end DB

namespace Books

variable {P : QString → Int32 → OrderBoy → Prop} {db : DB}

/-- Only the orders and the products matter. -/
theorem congr {db' : DB} (h : Books P db) (ho : db'.order = db.order)
    (hb : db'.orderBoy = db.orderBoy) : Books P db' := by
  obtain ⟨hc, hown, hs⟩ := h
  exact ⟨by rw [ho, hb]; exact hc, by rw [ho, hb]; exact hown, by rw [hb]; exact hs⟩

/-- The rows of the orders may change as long as number and mould count stay. -/
theorem of_order {db' : DB} (h : Books P db) (hb : db'.orderBoy = db.orderBoy)
    (hold : ∀ row' ∈ db'.order.rows, ∃ row ∈ db.order.rows,
      row.moDispatchNo = row'.moDispatchNo ∧ row.moTotalNum = row'.moTotalNum)
    (hnew : ∀ row ∈ db.order.rows, ∃ row' ∈ db'.order.rows, row'.moDispatchNo = row.moDispatchNo) :
    Books P db' := by
  refine ⟨?_, ?_, ?_⟩
  · intro row' hrow' b hb' hno
    obtain ⟨row, hrow, heq, htotal⟩ := hold row' hrow'
    rw [← htotal, ← heq]
    exact h.count row hrow b (hb ▸ hb') (hno.trans heq.symm)
  · intro b hb'
    obtain ⟨row, hrow, hno⟩ := h.owned b (hb ▸ hb')
    obtain ⟨row', hrow', hno'⟩ := hnew row hrow
    exact ⟨row', hrow', hno'.trans hno⟩
  · rw [hb]
    exact h.single

theorem removeOrder (h : Books P db) (no : QString) : Books P (db.removeOrder no) := by
  refine ⟨?_, ?_, ?_⟩
  · intro row hrow b hb hno
    exact h.count row (Table.mem_delete.mp hrow).1 b (AutoTable.mem_delete.mp hb).1 hno
  · intro b hb
    obtain ⟨hb, hne⟩ := AutoTable.mem_delete.mp hb
    obtain ⟨row, hrow, hno⟩ := h.owned b hb
    exact ⟨row, Table.mem_delete.mpr ⟨hrow, by rw [hno]; exact hne⟩, hno⟩
  · intro a ha b hb
    exact h.single a (AutoTable.mem_delete.mp ha).1 b (AutoTable.mem_delete.mp hb).1

theorem orderBoy_sort (db : DB) : db.sort.orderBoy = db.orderBoy := by
  have hfold : ∀ (l : List (Order × Nat)) (db : DB), (∀ o ∈ l, o.1.orderBoyList = []) →
      (l.foldl (fun db (o : Order × Nat) => db.subimtOrder { o.1 with mainOrderFlag := o.2 })
        db).orderBoy = db.orderBoy := by
    intro l
    induction l with
    | nil => exact fun _ _ => rfl
    | cons o l ih =>
      intro db hl
      rw [List.foldl_cons, ih _ (fun p hp => hl p (by simp [hp])), DB.subimtOrder]
      simp only [hl o (by simp), List.foldl_nil]
  apply hfold
  intro o ho
  obtain ⟨r, -, hr⟩ := List.mem_map.mp (List.fst_mem_of_mem_zipIdx ho)
  rw [← hr]

theorem sort (h : Books P db) : Books P db.sort := by
  apply h.of_order (orderBoy_sort db)
  · intro row' hrow'
    rw [DB.rows_sort] at hrow'
    obtain ⟨row, i, hi, rfl⟩ := mem_renumber hrow'
    exact ⟨row, mem_sortRows.mp (List.mem_of_getElem? hi), rfl, rfl⟩
  · intro row hrow
    have hmem : row.moDispatchNo ∈ (DB.renumber db.byFlag).map OrderRow.moDispatchNo := by
      rw [DB.map_moDispatchNo_renumber]
      exact List.mem_map_of_mem (mem_sortRows.mpr hrow)
    rw [DB.rows_sort]
    exact List.mem_map.mp hmem

/-- Reading the main order again: an empty order is created only in an empty table. -/
theorem onUpdate (h : Books P db) (hseq : Sequence db.order.rows) : Books P db.onUpdate.1 := by
  by_cases hnil : db.order.rows = []
  · have hno : ∀ b, b ∉ db.orderBoy.rows := by
      intro b hb
      obtain ⟨row, hrow, -⟩ := h.owned b hb
      rw [hnil] at hrow
      exact absurd hrow List.not_mem_nil
    refine ⟨?_, ?_, ?_⟩
    · intro _ _ b hb
      rw [DB.orderBoy_onUpdate] at hb
      exact absurd hb (hno b)
    · intro b hb
      rw [DB.orderBoy_onUpdate] at hb
      exact absurd hb (hno b)
    · rw [DB.orderBoy_onUpdate]
      exact h.single
  · rw [DB.onUpdate_of_hasMain (hseq.numbered.hasMain hnil)]
    exact h

theorem mono {Q : QString → Int32 → OrderBoy → Prop} (h : Books P db)
    (hPQ : ∀ no total b, P no total b → Q no total b) : Books Q db :=
  ⟨fun row hrow b hb hno => hPQ _ _ _ (h.count row hrow b hb hno), h.owned, h.single⟩

/-- Storing an order whose products are right, and which covers those stored under its number. What
was stored under its number need not have been right. -/
theorem subimtOrder {o : Order}
    (h : Books (fun no total b => no ≠ o.moDispatchNo → P no total b) db)
    (hP : ∀ c ∈ o.orderBoyList, ∀ n,
      P o.moDispatchNo o.moTotalNum (DB.storedBoy o.moDispatchNo c n))
    (hcover : ∀ b ∈ db.boys o.moDispatchNo, ∃ c ∈ o.orderBoyList, c.pcsItemNo = b.pcsItemNo) :
    Books P (db.subimtOrder o) := by
  have hsingle : ({ db with order := db.order.replace o.toOrderRow } : DB).Single := h.single
  obtain ⟨hs, hmem⟩ := DB.mem_foldl_subimtBoy hsingle o.moDispatchNo o.orderBoyList
  -- since every product stored for the order is stored again, none of the old rows is left
  have hrows : ∀ b ∈ (db.subimtOrder o).orderBoy.rows,
      (∃ c ∈ o.orderBoyList, ∃ n, b = DB.storedBoy o.moDispatchNo c n) ∨
        (b ∈ db.orderBoy.rows ∧ b.moDispatchNo ≠ o.moDispatchNo) := by
    intro b hb
    rcases hmem b hb with hnew | ⟨hb, hne⟩
    · exact .inl hnew
    · refine .inr ⟨hb, fun hno => ?_⟩
      obtain ⟨c, hc, hitem⟩ := hcover b (DB.mem_boys.mpr ⟨hb, hno⟩)
      rcases hne with hne | hne
      · exact hne hno
      · exact hne c hc hitem.symm
  refine ⟨?_, ?_, hs⟩
  · intro row hrow b hb hno
    rw [DB.order_subimtOrder] at hrow
    rcases Table.mem_replace.mp hrow with ⟨hrow, hne⟩ | rfl
    · rcases hrows b hb with ⟨c, -, n, rfl⟩ | ⟨hb, -⟩
      · exact absurd hno.symm hne
      · exact h.count row hrow b hb hno hne
    · rcases hrows b hb with ⟨c, hc, n, rfl⟩ | ⟨-, hne⟩
      · exact hP c hc n
      · exact absurd hno hne
  · intro b hb
    rw [DB.order_subimtOrder]
    rcases hrows b hb with ⟨c, -, n, rfl⟩ | ⟨hb, hne⟩
    · exact ⟨o.toOrderRow, Table.mem_replace.mpr (.inr rfl), rfl⟩
    · obtain ⟨row, hrow, hno⟩ := h.owned b hb
      exact ⟨row, Table.mem_replace.mpr (.inl ⟨hrow, fun heq => hne (hno.symm.trans heq)⟩), hno⟩

/-- Operations on the products of one order, together with its mould count, keep the books if each
of them leaves its product right. -/
theorem applyBoys (h : Books P db) {no : QString} {l : List (OrderBoy × BoyOp)} {k : Int32}
    (hl : l.map Prod.fst = db.boys no)
    (hop : ∀ p ∈ l, ∀ total, P no total p.1 → P no (total + k) (p.2.row p.1 p.1))
    (hkey : ∀ p ∈ l, (p.2.row p.1 p.1).moDispatchNo = p.1.moDispatchNo ∧
      (p.2.row p.1 p.1).pcsItemNo = p.1.pcsItemNo) :
    Books P ((db.onAddMOTotalNum no k).applyBoys l).1 := by
  -- no product changes the order or the item it belongs to
  have hsame : ∀ r ∈ db.orderBoy.rows, (DB.applyAll l r).moDispatchNo = r.moDispatchNo ∧
      (DB.applyAll l r).pcsItemNo = r.pcsItemNo := by
    intro r hr
    obtain ⟨hin, hout⟩ := DB.applyAll_boys hl hr
    by_cases hno : r.moDispatchNo = no
    · obtain ⟨p, hp, rfl, heq⟩ := hin hno
      rw [heq]
      exact hkey p hp
    · rw [hout hno]
      exact ⟨rfl, rfl⟩
  refine ⟨?_, ?_, ?_⟩
  · intro row' hrow' b' hb' hno'
    rw [DB.order_applyBoys] at hrow'
    rw [DB.rows_applyBoys] at hb'
    obtain ⟨row, hrow, rfl⟩ := List.mem_map.mp hrow'
    obtain ⟨r, hr, rfl⟩ := List.mem_map.mp hb'
    dsimp only at hno' ⊢
    obtain ⟨hin, hout⟩ := DB.applyAll_boys hl hr
    rw [(hsame r hr).1] at hno'
    by_cases hno : r.moDispatchNo = no
    · obtain ⟨p, hp, rfl, heq⟩ := hin hno
      -- a product of this order: its row of `tb_order` is the one that was counted up
      have hrno : row.moDispatchNo = no := by
        by_contra hrno
        rw [if_neg (by simpa using hrno)] at hno'
        exact hrno (hno'.symm.trans hno)
      have hcount := h.count row hrow p.1 hr (hno.trans hrno.symm)
      rw [if_pos (by simpa using hrno), heq, hrno]
      rw [hrno] at hcount
      exact hop p hp row.moTotalNum hcount
    · have hrno : row.moDispatchNo ≠ no := by
        intro heq
        rw [if_pos (by simpa using heq)] at hno'
        exact hno (hno'.trans heq)
      rw [if_neg (by simpa using hrno)] at hno' ⊢
      rw [hout hno]
      exact h.count row hrow r hr hno'
  · intro b' hb'
    rw [DB.rows_applyBoys] at hb'
    obtain ⟨r, hr, rfl⟩ := List.mem_map.mp hb'
    obtain ⟨row, hrow, hno⟩ := h.owned r hr
    rw [DB.order_applyBoys, (hsame r hr).1]
    refine ⟨_, List.mem_map_of_mem hrow, ?_⟩
    split
    · exact hno
    · exact hno
  · intro a' ha' b' hb' hno hitem
    rw [DB.rows_applyBoys] at ha' hb'
    obtain ⟨a, ha, rfl⟩ := List.mem_map.mp ha'
    obtain ⟨b, hb, rfl⟩ := List.mem_map.mp hb'
    rw [(hsame a ha).1, (hsame b hb).1] at hno
    rw [(hsame a ha).2, (hsame b hb).2] at hitem
    rw [h.single a ha b hb hno hitem]

end Books

end ProgrammingPath.Mes
