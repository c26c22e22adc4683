import ProgrammingPath.Mes.Ledger

/-!
# The count of good pieces

`Order.h` says what the count of good pieces of a product is: moulds times cavities, plus the
adjustment, minus the defects. The decoder computes it that way for a new order; from then on it is
a column of its own, which every mould, every save of defects and every cavity adjustment has to
bring up to date, in memory and in the database.

`good_of_meets` shows that all of them do, with one exception: the cavity adjustment clears the
moulds, the adjustment and the good pieces, but leaves the defects as they are, so it breaks the
relation for every product that has any.
-/

namespace ProgrammingPath.Mes

open ProgrammingPath.Qt ProgrammingPath.Lib

/-- The relation documented for `OrderBoy`, for a product of an order with `total` moulds. -/
def Good (_no : QString) (total : Int32) (b : OrderBoy) : Prop :=
  b.totalOkNum = total * b.pcsSocketNum2 + b.pcsAdjNum - b.pcsBadQty

/-! ## Decoding -/

/-- Everything read by `times` was read by the reader. -/
theorem Reader.mem_times {α : Type} {r : Reader α} {n : Nat} {p : MESPack} {x : α}
    (hx : x ∈ ((r.times n) p).1) : ∃ q, x = (r q).1 := by
  induction n generalizing p with
  | zero => exact absurd hx List.not_mem_nil
  | succ n ih =>
    have hx' : x ∈ (r p).1 :: ((r.times n) (r p).2).1 := hx
    rcases List.mem_cons.mp hx' with rfl | hx'
    · exact ⟨p, rfl⟩
    · exact ih hx'

/-- The order of a frame: its products are read one by one, and before each of them stand the
products stored under the same number. -/
theorem MESOrderRequest.order_decode {db : DB} {pack : MESPack} {request : MESOrderRequest}
    (h : MESOrderRequest.decode db pack = some request) :
    ∃ row n p, request.order =
      { toOrderRow := row,
        orderBoyList := (((readBoy row).times n) p).1.flatMap
          (fun boy => db.boys row.moDispatchNo ++ [boy]) } := by
  unfold decode at h
  split at h
  · cases h
  · rw [Option.some.injEq] at h
    subst h
    simp only [bind, StateT.bind, get, getThe, MonadStateOf.get, StateT.get, pure]
    split
    next dataType p₁ _ =>
    split
    next row p _ =>
    split
    next boys p₂ hboys =>
    refine ⟨row, row.moMultiNum.toNatClampNeg, p, ?_⟩
    rw [hboys]
    split
    · rfl
    · rfl

/-- If nothing is stored under the number of the order, the products are those of the frame. -/
theorem MESOrderRequest.mem_decode {db : DB} {pack : MESPack} {request : MESOrderRequest}
    (h : MESOrderRequest.decode db pack = some request)
    (hnone : db.boys request.order.moDispatchNo = []) {c : OrderBoy}
    (hc : c ∈ request.order.orderBoyList) : ∃ q, c = (readBoy request.order.toOrderRow q).1 := by
  obtain ⟨row, n, p, horder⟩ := order_decode h
  rw [horder] at hnone hc ⊢
  obtain ⟨boy, hboy, hc⟩ := List.mem_flatMap.mp hc
  rw [hnone, List.nil_append, List.mem_singleton] at hc
  subst hc
  exact Reader.mem_times hboy

theorem good_readBoy (row : OrderRow) (q : MESPack) (no : QString) :
    Good no row.moTotalNum (MESOrderRequest.readBoy row q).1 := rfl

/-! ## Steps -/

namespace Shop

/-- The condition on a step: an order with an empty number arrives only when nothing else is
stored, and the cavities are adjusted only while no product has defects. -/
def CountOk (shop : Shop) : Act → Prop
  | .orderFrame pack => ∀ request ∈ MESOrderRequest.decode shop.db pack,
    shop.NumberOk request.order.moDispatchNo
  | .adjSocketNum list _ => list.any (· == 0) = true ∨
    ∀ b ∈ shop.mainOrderCache.orderBoyList, b.pcsBadQty = 0
  | _ => True

instance (shop : Shop) : (a : Act) → Decidable (shop.CountOk a)
  | .orderFrame pack => inferInstanceAs (Decidable (∀ request ∈ MESOrderRequest.decode shop.db pack,
    shop.NumberOk request.order.moDispatchNo))
  | .adjSocketNum list _ => inferInstanceAs (Decidable (list.any (· == 0) = true ∨
    ∀ b ∈ shop.mainOrderCache.orderBoyList, b.pcsBadQty = 0))
  | .orderDelete _ | .orderReplace | .delete | .addModeCount _ _ _ | .replaceClass
  | .inputCell _ _ _ | .qcSave => inferInstanceAs (Decidable True)

variable {shop : Shop}

theorem good_mould (no : QString) (total : Int32) (b : OrderBoy) (h : Good no total b) :
    Good no (total + 1) ((BoyOp.onAddCurClassProductNo (1 * b.pcsSocketNum2)).row b b) := by
  unfold Good at h ⊢
  dsimp only [BoyOp.onAddCurClassProductNo]
  grind

theorem good_saveOps {no : QString} {p : OrderBoy × BoyOp} (hp : p ∈ shop.saveOps) {total : Int32}
    (h : Good no total p.1) : Good no total (p.2.row p.1 p.1) := by
  obtain ⟨bi, -, rfl⟩ := List.mem_map.mp hp
  dsimp only at h ⊢
  cases shop.mesTable[bi.2]? with
  | none => exact h
  | some table =>
    unfold Good at h ⊢
    dsimp only [Option.elim, saveOp, BoyOp.andThen, BoyOp.onAddPcsBadQty,
      BoyOp.onAddCurClassBadNo, BoyOp.onUpdatePCSBadData]
    grind

/-- Every step keeps the count of good pieces. -/
theorem good_step {shop' : Shop} {a : Act} (h : Balanced Good shop) (hok : shop.CountOk a)
    (hs : shop.step a = some shop') : Balanced Good shop' := by
  cases a with
  | orderFrame pack =>
    cases hs
    unfold onOrderFrame
    cases hdecode : MESOrderRequest.decode shop.db pack with
    | none => exact h
    | some request =>
      apply balanced_onOrderSend h _ (hok request hdecode)
      intro hnone c hc n
      obtain ⟨q, rfl⟩ := MESOrderRequest.mem_decode hdecode hnone hc
      exact good_readBoy request.order.toOrderRow q request.order.moDispatchNo
  | orderDelete no =>
    cases hs
    exact balanced_onOrderDelete h no
  | orderReplace =>
    cases hs
    exact balanced_onOrderReplace h.ledger
  | delete =>
    cases hs
    exact balanced_onDelete h.ledger
  | addModeCount haveStopCard autoChangeOrder producted =>
    cases hs
    exact balanced_onAddModeCount h _ _ _ good_mould
  | replaceClass =>
    cases hs
    exact balanced_onReplaceClass h (fun _ _ _ hP => hP)
  | inputCell boyIndex index v => exact h.inputCell hs
  | qcSave => exact balanced_qcSave h hs (fun p hp _ hP => good_saveOps hp hP)
  | adjSocketNum list prior =>
    apply balanced_adjSocketNum h hs
    intro hzero b hb v n
    -- the adjustment clears every counter but the defects
    have hbad : b.pcsBadQty = 0 := by
      rcases hok with hok | hok
      · rw [hzero] at hok
        cases hok
      · exact hok b hb
    unfold Good
    dsimp only [DB.storedBoy, clearBoy]
    rw [hbad]
    simp

/-! ## Runs -/

theorem balanced_init (P : QString → Int32 → OrderBoy → Prop) (badCfg : Int32 → List QString) :
    Balanced P (init badCfg) := by
  apply balanced_onUpdate
  refine ⟨Sequence.nil, ⟨?_, ?_, ?_⟩⟩
  · intro row hrow
    exact absurd hrow List.not_mem_nil
  · intro b hb
    exact absurd hb List.not_mem_nil
  · intro b hb
    exact absurd hb List.not_mem_nil

/-- A frame that dispatches an order with the number `no` and one product: 100 pieces, two cavities,
one defect reason. -/
def orderPack (no : UInt8) : MESPack :=
  { cmdSerial := 0xD0
    checkFlag := true
    body :=
      [0, 0] ++ (no :: List.replicate 19 0) ++ List.replicate 138 0 ++ [1, 0, 1] ++
        List.replicate 20 0 ++ (88 :: List.replicate 19 0) ++ List.replicate 70 0 ++
        [100, 0, 0, 0, 2, 2] ++ List.replicate 20 0 }

/-- **The count of good pieces.** Take any run from the empty database: orders arrive and go,
moulds are completed, defects are saved, shifts change and cavities are adjusted, such that no
cavity adjustment finds a product with defects and no order with an empty number is put among
others. Then in the state reached every product of the main order has, in memory, the documented
count of good pieces, and so has every product in the database. -/
theorem good_of_meets (badCfg : Int32 → List QString) (acts : List Act) (t : Shop)
    (hok : Meets step CountOk (init badCfg) acts) (hrun : run step (init badCfg) acts = some t) :
    (∀ b ∈ t.mainOrderCache.orderBoyList,
      b.totalOkNum = t.mainOrderCache.moTotalNum * b.pcsSocketNum2 + b.pcsAdjNum - b.pcsBadQty) ∧
    ∀ row ∈ t.db.order.rows, ∀ b ∈ t.db.orderBoy.rows, b.moDispatchNo = row.moDispatchNo →
      b.totalOkNum = row.moTotalNum * b.pcsSocketNum2 + b.pcsAdjNum - b.pcsBadQty := by
  have h : Balanced Good t :=
    run_invariant (fun _ _ _ h ho hs => good_step h ho hs) (balanced_init Good badCfg) hok hrun
  exact ⟨h.cache, h.ledger.books.count⟩

/-- An order, a mould, one defect saved, and a change of shift. -/
theorem good_of_meets_one_defect :
    ∃ t, run step (init fun _ => [[82]]) [.orderFrame (orderPack 65), .addModeCount false true {},
        .inputCell 0 0 1, .qcSave, .replaceClass] = some t ∧
      t.mainOrderCache.orderBoyList.map (·.totalOkNum) = [1] ∧
      ∀ b ∈ t.mainOrderCache.orderBoyList,
        b.totalOkNum = t.mainOrderCache.moTotalNum * b.pcsSocketNum2 + b.pcsAdjNum - b.pcsBadQty := by
  have hend : (run step (init fun _ => [[82]]) [.orderFrame (orderPack 65),
      .addModeCount false true {}, .inputCell 0 0 1, .qcSave, .replaceClass]).any
      (fun t => t.mainOrderCache.orderBoyList.map (·.totalOkNum) = [1]) = true := by decide +kernel
  obtain ⟨t, ht, hone⟩ := (Option.any_eq_true _ _).mp hend
  refine ⟨t, ht, by simpa using hone, ?_⟩
  exact (good_of_meets (fun _ => [[82]]) _ t (by decide +kernel) ht).1

/-- An order, a mould, one defect saved, and then the cavities are adjusted: no good pieces and one
defect. -/
theorem good_after_adjustment :
    ¬ ∀ (badCfg : Int32 → List QString) (acts : List Act) (t : Shop),
      run step (init badCfg) acts = some t → ∀ b ∈ t.mainOrderCache.orderBoyList,
        b.totalOkNum = t.mainOrderCache.moTotalNum * b.pcsSocketNum2 + b.pcsAdjNum - b.pcsBadQty := by
  intro h
  have hend : (run step (init fun _ => [[82]]) [.orderFrame (orderPack 65),
      .addModeCount false true {}, .inputCell 0 0 1, .qcSave, .adjSocketNum [1] []]).any
      (fun t => ¬ ∀ b ∈ t.mainOrderCache.orderBoyList, b.totalOkNum =
        t.mainOrderCache.moTotalNum * b.pcsSocketNum2 + b.pcsAdjNum - b.pcsBadQty) = true := by
    decide +kernel
  obtain ⟨t, ht, hnot⟩ := (Option.any_eq_true _ _).mp hend
  exact of_decide_eq_true hnot (h _ _ t ht)

end Shop

end ProgrammingPath.Mes
