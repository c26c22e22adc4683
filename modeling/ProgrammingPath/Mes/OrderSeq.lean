import ProgrammingPath.Lib.Run
import ProgrammingPath.Mes.OrderTable

/-!
# The sequence of orders

`tb_order` is a sequence: the number of an order is its place, the first one is the main order, and
an empty order stands in when there is none. The number of a new order is the count of rows plus
one, and a deletion renumbers the rest.

`sequence_of_meets` shows that every run from an empty table keeps the numbers `1..n`, the empty
order alone, and the order of the orders that survive. The run must not dispatch an order with an
empty dispatch number into a table that holds other orders: that number is the one the program
itself uses for the empty order, and nothing checks for it.
-/

namespace ProgrammingPath.Mes

open ProgrammingPath.Qt ProgrammingPath.Lib

/-! ## Sequences of rows -/

/-- The numbers of the orders are `1..n`. -/
def Numbered (rows : List OrderRow) : Prop :=
  (rows.map OrderRow.mainOrderFlag).Perm ((List.range' 1 rows.length).map Int.ofNat)

instance (rows : List OrderRow) : Decidable (Numbered rows) :=
  inferInstanceAs (Decidable (List.Perm _ _))

/-- Numbers `1..n`, and the empty order only by itself. -/
structure Sequence (rows : List OrderRow) : Prop where
  numbered : Numbered rows
  alone : ∀ r ∈ rows, r.moDispatchNo = [] → rows.length = 1

/-- `x` stands before `y`. -/
def Before (rows : List OrderRow) (x y : QString) : Prop :=
  ∃ r ∈ rows, ∃ s ∈ rows, r.moDispatchNo = x ∧ s.moDispatchNo = y ∧ r.mainOrderFlag < s.mainOrderFlag

/-- The orders that are in both tables stand in the same order. -/
def Kept (rows rows' : List OrderRow) : Prop :=
  ∀ r ∈ rows, ∀ s ∈ rows, ∀ r' ∈ rows', ∀ s' ∈ rows',
    r.moDispatchNo = r'.moDispatchNo → s.moDispatchNo = s'.moDispatchNo →
    r.moDispatchNo ≠ [] → s.moDispatchNo ≠ [] →
    (r.mainOrderFlag < s.mainOrderFlag ↔ r'.mainOrderFlag < s'.mainOrderFlag)

/-- No order but the empty one is new. -/
def NoNew (rows rows' : List OrderRow) : Prop :=
  ∀ r' ∈ rows', r'.moDispatchNo ≠ [] → ∃ r ∈ rows, r.moDispatchNo = r'.moDispatchNo

section

variable {rows rows' rows'' : List OrderRow}

theorem Kept.trans (h₁ : Kept rows rows') (h₂ : Kept rows' rows'') (hn : NoNew rows' rows'') :
    Kept rows rows'' := by
  intro r hr s hs r'' hr'' s'' hs'' hre hse hrn hsn
  obtain ⟨r', hr', hre'⟩ := hn r'' hr'' (hre ▸ hrn)
  obtain ⟨s', hs', hse'⟩ := hn s'' hs'' (hse ▸ hsn)
  have hre₁ := hre.trans hre'.symm
  have hse₁ := hse.trans hse'.symm
  exact (h₁ r hr s hs r' hr' s' hs' hre₁ hse₁ hrn hsn).trans
    (h₂ r' hr' s' hs' r'' hr'' s'' hs'' hre' hse' (hre₁ ▸ hrn) (hse₁ ▸ hsn))

theorem NoNew.trans (h₁ : NoNew rows rows') (h₂ : NoNew rows' rows'') : NoNew rows rows'' := by
  intro r'' hr'' hne
  obtain ⟨r', hr', hre'⟩ := h₂ r'' hr'' hne
  obtain ⟨r, hr, hre⟩ := h₁ r' hr' (hre' ▸ hne)
  exact ⟨r, hr, hre.trans hre'⟩

/-- If all rows but new ones and the empty order were there before, the order is kept. -/
theorem kept_of_mem (hkeys : (rows.map OrderRow.moDispatchNo).Nodup)
    (h : ∀ r' ∈ rows', (∃ r ∈ rows, r.moDispatchNo = r'.moDispatchNo ∧ r.moDispatchNo ≠ []) →
      r' ∈ rows) : Kept rows rows' := by
  intro r hr s hs r' hr' s' hs' hre hse hrn hsn
  have hr'' := h r' hr' ⟨r, hr, hre, hrn⟩
  have hs'' := h s' hs' ⟨s, hs, hse, hsn⟩
  rw [List.inj_on_of_nodup_map hkeys hr hr'' hre, List.inj_on_of_nodup_map hkeys hs hs'' hse]

theorem Numbered.nodup (h : Numbered rows) : (rows.map OrderRow.mainOrderFlag).Nodup :=
  h.nodup_iff.mpr (List.Nodup.map (fun _ _ h => Int.ofNat.inj h) (List.nodup_range' 1))

/-- A sequence that is not empty has a main order. -/
theorem Numbered.hasMain (h : Numbered rows) (hne : rows ≠ []) : DB.HasMain rows := by
  have hone : (1 : Int) ∈ rows.map OrderRow.mainOrderFlag := by
    rw [h.mem_iff, List.mem_map]
    have := List.length_pos_iff.mpr hne
    exact ⟨1, by rw [List.mem_range'_1]; omega, rfl⟩
  exact List.mem_map.mp hone

/-- Only the numbers and the dispatch numbers of the rows matter. -/
theorem Sequence.of_perm (h : Sequence rows)
    (hperm : (rows'.map fun r => (r.moDispatchNo, r.mainOrderFlag)).Perm
      (rows.map fun r => (r.moDispatchNo, r.mainOrderFlag))) : Sequence rows' := by
  have hlen : rows'.length = rows.length := by simpa using hperm.length_eq
  have hflags : (rows'.map OrderRow.mainOrderFlag).Perm (rows.map OrderRow.mainOrderFlag) := by
    have hsnd := hperm.map Prod.snd
    rwa [List.map_map, List.map_map] at hsnd
  refine ⟨?_, fun r' hr' hnil => ?_⟩
  · rw [Numbered, hlen]
    exact hflags.trans h.numbered
  · have hmem := hperm.mem_iff.mp (List.mem_map_of_mem hr')
    obtain ⟨r, hr, heq⟩ := List.mem_map.mp hmem
    rw [hlen]
    exact h.alone r hr ((congrArg Prod.fst heq).trans hnil)

/-! ## `OnUpdate` -/

theorem fillMain_of_numbered (h : Numbered rows) :
    DB.fillMain rows = if rows = [] then [emptyOrder] else rows := by
  unfold DB.fillMain
  split
  · next hmain =>
    obtain ⟨r, hr, -⟩ := hmain
    rw [if_neg (List.ne_nil_of_mem hr)]
  · next hmain =>
    have hnil : rows = [] := by_contra fun hne => hmain (h.hasMain hne)
    rw [if_pos hnil, hnil]
    rfl

theorem Sequence.fillMain (h : Sequence rows) : Sequence (DB.fillMain rows) := by
  rw [fillMain_of_numbered h.numbered]
  split
  · exact ⟨by decide, fun _ _ _ => rfl⟩
  · exact h

theorem Sequence.kept_fillMain (h : Sequence rows) (hkeys : (rows.map OrderRow.moDispatchNo).Nodup) :
    Kept rows (DB.fillMain rows) ∧ NoNew rows (DB.fillMain rows) := by
  rw [fillMain_of_numbered h.numbered]
  split
  · next hnil =>
    subst hnil
    refine ⟨fun r hr => absurd hr List.not_mem_nil, ?_⟩
    intro r hr hne
    rw [List.mem_singleton.mp hr] at hne
    exact absurd rfl hne
  · exact ⟨kept_of_mem hkeys (fun r hr _ => hr), fun r hr _ => ⟨r, hr, rfl⟩⟩

/-! ## Removing an order and renumbering -/

/-- The rows by ascending number. -/
def sortRows (rows : List OrderRow) : List OrderRow :=
  rows.insertionSort (fun r s => r.mainOrderFlag ≤ s.mainOrderFlag)

theorem mem_sortRows {r : OrderRow} : r ∈ sortRows rows ↔ r ∈ rows :=
  (List.perm_insertionSort _ _).mem_iff

/-- In a sequence the numbers ascend strictly. -/
theorem pairwise_sortRows (h : (rows.map OrderRow.mainOrderFlag).Nodup) :
    (sortRows rows).Pairwise (fun r s => r.mainOrderFlag < s.mainOrderFlag) := by
  have : Std.Total (fun r s : OrderRow => r.mainOrderFlag ≤ s.mainOrderFlag) :=
    ⟨fun r s => Int.le_total _ _⟩
  have : IsTrans OrderRow (fun r s => r.mainOrderFlag ≤ s.mainOrderFlag) :=
    ⟨fun _ _ _ => Int.le_trans⟩
  have hsorted : (sortRows rows).Pairwise (fun r s => r.mainOrderFlag ≤ s.mainOrderFlag) :=
    List.pairwise_insertionSort _ _
  have hnodup : ((sortRows rows).map OrderRow.mainOrderFlag).Nodup :=
    ((List.perm_insertionSort _ _).map _).nodup_iff.mpr h
  have hne : (sortRows rows).Pairwise (fun r s => r.mainOrderFlag ≠ s.mainOrderFlag) :=
    List.pairwise_map.mp hnodup
  exact (hsorted.and hne).imp (fun h => lt_of_le_of_ne h.1 h.2)

theorem numbered_renumber : Numbered (DB.renumber rows) := by
  have hflags : (DB.renumber rows).map OrderRow.mainOrderFlag =
      (List.range' 1 rows.length).map Int.ofNat := by
    rw [DB.renumber, List.map_map, ← List.zipIdx_map_snd 1 rows, List.map_map]
    rfl
  rw [Numbered, hflags, DB.length_renumber]

/-- An order of the renumbered list is one of the list, with its place as its number. -/
theorem mem_renumber {r' : OrderRow} (h : r' ∈ DB.renumber rows) :
    ∃ (r : OrderRow) (i : Nat), rows[i]? = some r ∧
      r' = { r with mainOrderFlag := ((i + 1 : Nat) : Int) } := by
  obtain ⟨⟨r, k⟩, hmem, rfl⟩ := List.mem_map.mp h
  rw [List.mk_mem_zipIdx_iff_le_and_getElem?_sub] at hmem
  exact ⟨r, k - 1, hmem.2, by simp only [Nat.sub_add_cancel hmem.1]⟩

/-- Renumbering the sorted rows keeps their order. -/
theorem kept_renumber (hkeys : (rows.map OrderRow.moDispatchNo).Nodup)
    (hflags : (rows.map OrderRow.mainOrderFlag).Nodup) :
    Kept rows (DB.renumber (sortRows rows)) ∧ NoNew rows (DB.renumber (sortRows rows)) := by
  -- the new number is the place in the sorted list, which is a strict order of the old numbers
  have hlt : ∀ {i j : Nat} {r s : OrderRow}, (sortRows rows)[i]? = some r →
      (sortRows rows)[j]? = some s → i < j → r.mainOrderFlag < s.mainOrderFlag := by
    intro i j r s hi hj hij
    obtain ⟨hi', rfl⟩ := List.getElem?_eq_some_iff.mp hi
    obtain ⟨hj', rfl⟩ := List.getElem?_eq_some_iff.mp hj
    exact List.pairwise_iff_getElem.mp (pairwise_sortRows hflags) i j hi' hj' hij
  constructor
  · intro r hr s hs r' hr' s' hs' hre hse _ _
    obtain ⟨r₁, i, hi, rfl⟩ := mem_renumber hr'
    obtain ⟨s₁, j, hj, rfl⟩ := mem_renumber hs'
    have hr₁ : r = r₁ := List.inj_on_of_nodup_map hkeys hr
      (mem_sortRows.mp (List.mem_of_getElem? hi)) hre
    have hs₁ : s = s₁ := List.inj_on_of_nodup_map hkeys hs
      (mem_sortRows.mp (List.mem_of_getElem? hj)) hse
    subst hr₁ hs₁
    show r.mainOrderFlag < s.mainOrderFlag ↔ ((i + 1 : Nat) : Int) < ((j + 1 : Nat) : Int)
    rcases Nat.lt_trichotomy i j with hij | hij | hij
    · have := hlt hi hj hij
      omega
    · subst hij
      have : r = s := Option.some.inj (hi.symm.trans hj)
      subst this
      omega
    · have := hlt hj hi hij
      omega
  · intro r' hr' _
    obtain ⟨r, i, hi, rfl⟩ := mem_renumber hr'
    exact ⟨r, mem_sortRows.mp (List.mem_of_getElem? hi), rfl⟩

/-- Remove an order and renumber the rest. -/
def remove (rows : List OrderRow) (no : QString) : List OrderRow :=
  DB.renumber (sortRows (rows.filter (fun r => !(r.moDispatchNo == no))))

theorem rows_remove (db : DB) (no : QString) :
    (db.removeOrder no).sort.order.rows = remove db.order.rows no := by
  rw [DB.rows_sort]
  rfl

theorem Sequence.remove (h : Sequence rows) (no : QString) : Sequence (remove rows no) := by
  have hsub : (rows.filter (fun r => !(r.moDispatchNo == no))).Sublist rows := List.filter_sublist
  refine ⟨numbered_renumber, fun r' hr' hnil => ?_⟩
  obtain ⟨r, i, hi, rfl⟩ := mem_renumber hr'
  have hr := mem_sortRows.mp (List.mem_of_getElem? hi)
  have hone := h.alone r (hsub.subset hr) hnil
  have hle := hsub.length_le
  have hpos := List.length_pos_iff.mpr (List.ne_nil_of_mem hr)
  rw [Mes.remove, DB.length_renumber, sortRows, List.length_insertionSort]
  omega

/-- Remove an order, renumber, and read the main order again. -/
def advance (rows : List OrderRow) (no : QString) : List OrderRow := DB.fillMain (remove rows no)

theorem rows_advance (db : DB) (no : QString) :
    (db.removeOrder no).sort.onUpdate.1.order.rows = advance db.order.rows no := by
  rw [DB.rows_onUpdate, rows_remove]
  rfl

theorem Sequence.advance (h : Sequence rows) (hkeys : (rows.map OrderRow.moDispatchNo).Nodup)
    (no : QString) :
    Sequence (advance rows no) ∧ Kept rows (Mes.advance rows no) ∧ NoNew rows (Mes.advance rows no) := by
  have hsub : (rows.filter (fun r => !(r.moDispatchNo == no))).Sublist rows := List.filter_sublist
  have hkeys₁ := hkeys.sublist (hsub.map OrderRow.moDispatchNo)
  have hflags₁ := h.numbered.nodup.sublist (hsub.map OrderRow.mainOrderFlag)
  have hkept₁ : Kept rows (rows.filter (fun r => !(r.moDispatchNo == no))) :=
    kept_of_mem hkeys (fun r hr _ => hsub.subset hr)
  have hnew₁ : NoNew rows (rows.filter (fun r => !(r.moDispatchNo == no))) :=
    fun r hr _ => ⟨r, hsub.subset hr, rfl⟩
  obtain ⟨hkept₂, hnew₂⟩ := kept_renumber hkeys₁ hflags₁
  have hseq := h.remove no
  have hkeys₂ : ((Mes.remove rows no).map OrderRow.moDispatchNo).Nodup := by
    rw [Mes.remove, DB.map_moDispatchNo_renumber]
    exact ((List.perm_insertionSort _ _).map _).nodup_iff.mpr hkeys₁
  obtain ⟨hkept₃, hnew₃⟩ := hseq.kept_fillMain hkeys₂
  exact ⟨hseq.fillMain, (hkept₁.trans hkept₂ hnew₂).trans hkept₃ hnew₃,
    (hnew₁.trans hnew₂).trans hnew₃⟩

/-! ## A new order -/

/-- What `OnOrderSend` finds once the empty order was removed. -/
theorem Sequence.filter_ne_nil (h : Sequence rows) :
    rows.filter (fun r => !(r.moDispatchNo == [])) = [] ∨
      (rows.filter (fun r => !(r.moDispatchNo == [])) = rows ∧ ∀ r ∈ rows, r.moDispatchNo ≠ []) := by
  by_cases hex : ∃ r ∈ rows, r.moDispatchNo = []
  · left
    obtain ⟨r, hr, hnil⟩ := hex
    obtain ⟨s, rfl⟩ := List.length_eq_one_iff.mp (h.alone r hr hnil)
    rw [List.mem_singleton.mp hr] at hnil
    simp [hnil]
  · right
    have hne : ∀ r ∈ rows, r.moDispatchNo ≠ [] := fun r hr hnil => hex ⟨r, hr, hnil⟩
    exact ⟨List.filter_eq_self.mpr (fun r hr => by simpa using hne r hr), hne⟩

theorem Sequence.nil : Sequence [] :=
  ⟨List.Perm.refl _, fun _ hr => absurd hr List.not_mem_nil⟩

/-- Without the empty order, what is left is a sequence. -/
theorem Sequence.without_empty (h : Sequence rows) :
    Sequence (rows.filter (fun r => !(r.moDispatchNo == []))) := by
  rcases h.filter_ne_nil with hnil | ⟨hsame, -⟩
  · rw [hnil]
    exact Sequence.nil
  · rwa [hsame]

/-- A new order goes to the end of the sequence. -/
theorem Sequence.append {row : OrderRow} (h : Sequence rows) (hne : ∀ r ∈ rows, r.moDispatchNo ≠ [])
    (hflag : row.mainOrderFlag = ((rows.length + 1 : Nat) : Int))
    (hrow : row.moDispatchNo ≠ [] ∨ rows = []) : Sequence (rows ++ [row]) := by
  refine ⟨?_, ?_⟩
  · rw [Numbered, List.map_append, List.length_append, List.length_singleton, List.range'_1_concat,
      List.map_append, List.map_singleton, List.map_singleton, hflag, Nat.add_comm 1]
    exact h.numbered.append_right _
  · intro r hr hnil
    rcases List.mem_append.mp hr with hr | hr
    · exact absurd hnil (hne r hr)
    · rw [List.mem_singleton.mp hr] at hnil
      rcases hrow with hrow | rfl
      · exact absurd hnil hrow
      · rfl

end

/-! ## The operations -/

/-- What happens to the orders: the server dispatches, deletes, or asks for the next one; the
operator deletes the main order; the main order is done; or it is only read again. -/
inductive OrderAct where
  | orderSend (order : Order) (materialList : List Material)
  | orderDelete (no : QString)
  | orderReplace
  | delete
  | replaceOrder
  | update
  deriving DecidableEq, Repr

namespace Shop

def orderStep (shop : Shop) : OrderAct → Option Shop
  | .orderSend order materialList => some (shop.onOrderSend order materialList)
  | .orderDelete no => some (shop.onOrderDelete no)
  | .orderReplace => some shop.onOrderReplace
  | .delete => some shop.onDelete
  | .replaceOrder => some shop.onReplaceOrder
  | .update => some shop.onUpdate

/-- The condition on a step: an order with an empty dispatch number is dispatched only when the
table holds no order with another number. -/
def OrderOk (shop : Shop) : OrderAct → Prop
  | .orderSend order _ => order.moDispatchNo ≠ [] ∨ ∀ r ∈ shop.db.order.rows, r.moDispatchNo = []
  | _ => True

instance (shop : Shop) : (a : OrderAct) → Decidable (shop.OrderOk a)
  | .orderSend order _ =>
    inferInstanceAs (Decidable (order.moDispatchNo ≠ [] ∨ ∀ r ∈ shop.db.order.rows, r.moDispatchNo = []))
  | .orderDelete _ | .orderReplace | .delete | .replaceOrder | .update =>
    inferInstanceAs (Decidable True)

variable {shop : Shop}

/-- `OnOrderSend` refuses an order that is there and stores any other at the end. -/
theorem rows_onOrderSend (order : Order) (materialList : List Material) {base : List OrderRow}
    (hbase : base = shop.db.order.rows.filter (fun r => !(r.moDispatchNo == []))) :
    ((∃ r ∈ base, r.moDispatchNo = order.moDispatchNo) ∧
        (shop.onOrderSend order materialList).db.order.rows = base) ∨
      ((∀ r ∈ base, r.moDispatchNo ≠ order.moDispatchNo) ∧
        ∃ row : OrderRow, row.moDispatchNo = order.moDispatchNo ∧
          row.mainOrderFlag = ((base.length + 1 : Nat) : Int) ∧
          (shop.onOrderSend order materialList).db.order.rows = DB.fillMain (base ++ [row])) := by
  have hrows : (shop.db.removeOrder []).order.rows = base := hbase.symm
  unfold onOrderSend
  simp only
  split
  · next hcount =>
    left
    rw [DB.countMODispatchNo, ← Nat.pos_iff_ne_zero, List.countP_pos_iff, hrows] at hcount
    obtain ⟨r, hr, heq⟩ := hcount
    exact ⟨⟨r, hr, by simpa using heq⟩, hrows⟩
  · next hcount =>
    right
    rw [DB.countMODispatchNo, not_not, List.countP_eq_zero, hrows] at hcount
    have hnew : ∀ r ∈ base, r.moDispatchNo ≠ order.moDispatchNo := by
      intro r hr
      simpa using hcount r hr
    refine ⟨hnew, { order.toOrderRow with
      mainOrderFlag := (shop.db.removeOrder []).countOrder + 1 }, rfl, ?_, ?_⟩
    · rw [DB.countOrder, hrows]
      rfl
    · rw [db_onUpdate, DB.rows_onUpdate, DB.order_foldl_subimtMaterial, DB.order_subimtOrder,
        Table.rows_replace_of_new, hrows]
      rw [hrows]
      exact hnew

theorem step_orderSend (h : Sequence shop.db.order.rows) {order : Order} {materialList : List Material}
    (hok : shop.OrderOk (.orderSend order materialList)) :
    Sequence (shop.onOrderSend order materialList).db.order.rows ∧
      Kept shop.db.order.rows (shop.onOrderSend order materialList).db.order.rows := by
  have hkeys := shop.db.order.nodup
  generalize hbase : shop.db.order.rows.filter (fun r => !(r.moDispatchNo == [])) = base
  have hsub : ∀ r ∈ base, r ∈ shop.db.order.rows := fun r hr =>
    (List.mem_filter.mp (hbase ▸ hr)).1
  have hseq : Sequence base := hbase ▸ h.without_empty
  have hne : ∀ r ∈ base, r.moDispatchNo ≠ [] := by
    intro r hr hnil
    have hkeep := (List.mem_filter.mp (hbase ▸ hr)).2
    rw [hnil] at hkeep
    exact absurd hkeep (by decide)
  rcases rows_onOrderSend order materialList hbase.symm with ⟨-, hrows⟩ | ⟨hnew, row, hno, hflag, hrows⟩
  · rw [hrows]
    exact ⟨hseq, kept_of_mem hkeys (fun r hr _ => hsub r hr)⟩
  · have hrow : row.moDispatchNo ≠ [] ∨ base = [] := by
      rcases hok with hok | hok
      · exact .inl (hno ▸ hok)
      · right
        rw [List.eq_nil_iff_forall_not_mem]
        exact fun r hr => hne r hr (hok r (hsub r hr))
    have happ := hseq.append hne hflag hrow
    rw [hrows, fillMain_of_numbered happ.numbered, if_neg (by simp)]
    refine ⟨happ, kept_of_mem hkeys ?_⟩
    rintro r' hr' ⟨r, hr, heq, hnil⟩
    rcases List.mem_append.mp hr' with hr' | hr'
    · exact hsub r' hr'
    · -- the new order is not one of those that were there
      rw [List.mem_singleton.mp hr', hno] at heq
      refine absurd heq (hnew r ?_)
      rw [← hbase, List.mem_filter]
      exact ⟨hr, by simpa using hnil⟩

/-! ## Runs -/

/-- Every step keeps the sequence and the order of the orders that survive it. -/
theorem orderStep_sequence {shop' : Shop} {a : OrderAct} (h : Sequence shop.db.order.rows)
    (hok : shop.OrderOk a) (hs : shop.orderStep a = some shop') :
    Sequence shop'.db.order.rows ∧ Kept shop.db.order.rows shop'.db.order.rows := by
  have hkeys := shop.db.order.nodup
  have hrefl : Kept shop.db.order.rows shop.db.order.rows := kept_of_mem hkeys (fun r hr _ => hr)
  cases a with
  | orderSend order materialList =>
    cases hs
    exact step_orderSend h hok
  | orderDelete no =>
    cases hs
    unfold onOrderDelete
    split
    · exact ⟨h, hrefl⟩
    · next order _ =>
      split
      · exact ⟨h, hrefl⟩
      · obtain ⟨hseq, hkept, -⟩ := h.advance hkeys order.moDispatchNo
        rw [db_onUpdate, rows_advance]
        split
        · exact ⟨hseq, hkept⟩
        · exact ⟨hseq, hkept⟩
  | orderReplace =>
    cases hs
    -- the other `OrderMainOperation` reads the main order first
    obtain ⟨hkept₁, -⟩ := h.kept_fillMain hkeys
    have hseq₁ := h.fillMain
    rw [← DB.rows_onUpdate] at hkept₁ hseq₁
    have hkeys₁ := shop.db.onUpdate.1.order.nodup
    obtain ⟨hseq₂, hkept₂, hnew₂⟩ := hseq₁.advance hkeys₁ shop.db.onUpdate.2.moDispatchNo
    have hkeys₂ := (shop.db.onUpdate.1.removeOrder shop.db.onUpdate.2.moDispatchNo).sort.onUpdate.1.order.nodup
    rw [rows_advance] at hkeys₂
    obtain ⟨hkept₃, hnew₃⟩ := hseq₂.kept_fillMain hkeys₂
    have hrows : shop.onOrderReplace.db.order.rows =
        DB.fillMain (advance shop.db.onUpdate.1.order.rows shop.db.onUpdate.2.moDispatchNo) := by
      rw [onOrderReplace, db_onUpdate, DB.rows_onUpdate, ← rows_advance]
      rfl
    rw [hrows]
    exact ⟨hseq₂.fillMain, (hkept₁.trans hkept₂ hnew₂).trans hkept₃ hnew₃⟩
  | delete =>
    cases hs
    obtain ⟨hseq, hkept, -⟩ := h.advance hkeys ((shop.db.queryFlag 1).getD {}).moDispatchNo
    rw [onDelete, db_onUpdate, rows_advance]
    exact ⟨hseq, hkept⟩
  | replaceOrder =>
    cases hs
    obtain ⟨hseq, hkept, -⟩ := h.advance hkeys shop.mainOrderCache.moDispatchNo
    have hrows : shop.onReplaceOrder.db.order.rows =
        advance shop.db.order.rows shop.mainOrderCache.moDispatchNo := by
      rw [← rows_advance, ← db_onUpdate { shop with
        db := (shop.db.removeOrder shop.mainOrderCache.moDispatchNo).sort }]
      rfl
    rw [hrows]
    exact ⟨hseq, hkept⟩
  | update =>
    cases hs
    rw [db_onUpdate, DB.rows_onUpdate]
    exact ⟨h.fillMain, (h.kept_fillMain hkeys).1⟩

/-- The order with this number is in the table. -/
def Present (shop : Shop) (x : QString) : Prop := ∃ r ∈ shop.db.order.rows, r.moDispatchNo = x

/-- The empty order stands before nothing and behind nothing. -/
theorem not_before_nil {rows : List OrderRow} (h : Sequence rows) {x y : QString}
    (hnil : x = [] ∨ y = []) : ¬ Before rows x y := by
  rintro ⟨r, hr, s, hs, hrx, hsy, hlt⟩
  have hone : rows.length = 1 := by
    rcases hnil with hnil | hnil
    · exact h.alone r hr (hrx.trans hnil)
    · exact h.alone s hs (hsy.trans hnil)
  obtain ⟨q, rfl⟩ := List.length_eq_one_iff.mp hone
  rw [List.mem_singleton.mp hr, List.mem_singleton.mp hs] at hlt
  exact Int.lt_irrefl _ hlt

theorem before_iff_of_kept {shop' : Shop} (h : Sequence shop.db.order.rows)
    (h' : Sequence shop'.db.order.rows) (hkept : Kept shop.db.order.rows shop'.db.order.rows)
    {x y : QString} (hx : shop.Present x) (hy : shop.Present y) (hx' : shop'.Present x)
    (hy' : shop'.Present y) :
    Before shop.db.order.rows x y ↔ Before shop'.db.order.rows x y := by
  by_cases hnil : x = [] ∨ y = []
  · exact iff_of_false (not_before_nil h hnil) (not_before_nil h' hnil)
  · rw [not_or] at hnil
    obtain ⟨r, hr, rfl⟩ := hx
    obtain ⟨s, hs, rfl⟩ := hy
    obtain ⟨r', hr', hre⟩ := hx'
    obtain ⟨s', hs', hse⟩ := hy'
    have hiff := hkept r hr s hs r' hr' s' hs' hre.symm hse.symm hnil.1 hnil.2
    constructor
    · rintro ⟨p, hp, q, hq, hpr, hqs, hlt⟩
      rw [shop.db.order.eq_of_key_eq hp hr hpr, shop.db.order.eq_of_key_eq hq hs hqs] at hlt
      exact ⟨r', hr', s', hs', hre, hse, hiff.mp hlt⟩
    · rintro ⟨p, hp, q, hq, hpr, hqs, hlt⟩
      rw [shop'.db.order.eq_of_key_eq hp hr' (hpr.trans hre.symm),
        shop'.db.order.eq_of_key_eq hq hs' (hqs.trans hse.symm)] at hlt
      exact ⟨r, hr, s, hs, rfl, rfl, hiff.mpr hlt⟩

/-- A run from a sequence ends in one, and two orders that are there all the time stay in the same
order. -/
theorem run_orderStep {s t : Shop} {acts : List OrderAct} (h : Sequence s.db.order.rows)
    (hok : Meets orderStep OrderOk s acts) (hrun : run orderStep s acts = some t) :
    Sequence t.db.order.rows ∧ ∀ x y : QString,
      (∀ mid rest u, acts = mid ++ rest → run orderStep s mid = some u → u.Present x ∧ u.Present y) →
      (Before s.db.order.rows x y ↔ Before t.db.order.rows x y) := by
  induction acts generalizing s with
  | nil =>
    cases hrun
    exact ⟨h, fun _ _ _ => Iff.rfl⟩
  | cons a acts ih =>
    obtain ⟨m, hm, hr⟩ := run_cons_eq_some.mp hrun
    obtain ⟨hseq, hkept⟩ := orderStep_sequence h hok.head hm
    obtain ⟨hseq', hbefore⟩ := ih hseq (hok.tail hm) hr
    refine ⟨hseq', fun x y hthere => ?_⟩
    have hthere_s := hthere [] (a :: acts) s rfl rfl
    have hthere_m := hthere [a] acts m rfl (run_cons_eq_some.mpr ⟨m, hm, rfl⟩)
    have hfirst := before_iff_of_kept h hseq hkept hthere_s.1 hthere_s.2 hthere_m.1 hthere_m.2
    refine hfirst.trans (hbefore x y fun mid rest u hsplit hu => ?_)
    exact hthere (a :: mid) rest u (by rw [hsplit, List.cons_append])
      (run_cons_eq_some.mpr ⟨m, hm, hu⟩)

/-- **The sequence of orders.** Start from an empty `tb_order` and take any operations, in any
order, such that no order with an empty dispatch number is dispatched while the table holds other
orders. Then, in every state reached, the numbers are `1..n` and an empty order is the only one;
and from any state of the run to any later one, orders that are there throughout keep their
relative order. -/
theorem sequence_of_meets (shop : Shop) (hempty : shop.db.order.rows = [])
    (acts acts' : List OrderAct) (s t : Shop)
    (hok : Meets orderStep OrderOk shop (acts ++ acts')) (hs : run orderStep shop acts = some s)
    (ht : run orderStep s acts' = some t) :
    Sequence t.db.order.rows ∧ ∀ x y : QString,
      (∀ mid rest u, acts' = mid ++ rest → run orderStep s mid = some u →
        u.Present x ∧ u.Present y) →
      (Before s.db.order.rows x y ↔ Before t.db.order.rows x y) := by
  have hinit : Sequence shop.db.order.rows := by
    rw [hempty]
    exact Sequence.nil
  obtain ⟨hok₁, hok₂⟩ := hok.append hs
  exact run_orderStep (run_orderStep hinit hok₁ hs).1 hok₂ ht

/-- Three orders, of which the server takes the first one back. -/
theorem sequence_of_meets_three_orders :
    let order (no : QString) : OrderAct := .orderSend { moDispatchNo := no } []
    ∃ t, run orderStep {} [.update, order [65], order [66], order [67], .orderDelete [65]] = some t ∧
      t.db.order.rows.length = 2 ∧ Sequence t.db.order.rows := by
  intro order
  exact ⟨_, rfl, by decide, (sequence_of_meets {} rfl
    [.update, order [65], order [66], order [67], .orderDelete [65]] [] _ _ (by decide) rfl rfl).1⟩

/-- An order with an empty dispatch number is dispatched behind another order. -/
theorem sequence_with_empty_number :
    ¬ ∀ (shop : Shop) (acts : List OrderAct) (t : Shop), shop.db.order.rows = [] →
      run orderStep shop acts = some t →
      Numbered t.db.order.rows ∧
        ∀ r ∈ t.db.order.rows, r.moDispatchNo = [] → t.db.order.rows.length = 1 := by
  intro h
  have := h {} [.orderSend { moDispatchNo := [65] } [], .orderSend {} []] _ rfl rfl
  revert this
  decide

end Shop

end ProgrammingPath.Mes
