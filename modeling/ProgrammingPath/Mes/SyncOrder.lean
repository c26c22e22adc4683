import Mathlib.Data.List.Perm.Subperm
import Mathlib.Data.List.Dedup
import ProgrammingPath.Mes.OrderAdjust
import ProgrammingPath.Mes.OrderSeq

/-!
# Synchronising the orders with the server (`Action/fun_dialog/syncorderdialog.cpp`)

Before the sequence of orders is changed at the machine, `SyncOrderDialog` asks the server for its
list of orders. When the list comes, local orders that are not on it are removed; the server then
dispatches the ones that are missing here. Every half second the dialog compares the number of local
orders with the length of the list, and when they agree it takes over the numbers of the list and
accepts.

Equal counts do not mean equal orders. If the main order was removed, the next dispatched order
makes `OnUpdate` create an empty one, which is counted as well, and the dialog accepts one order too
early. `accepted_synced_iff` says exactly for which tables and lists this can happen.
-/

namespace ProgrammingPath.Mes

open ProgrammingPath.Qt ProgrammingPath.Lib

/-! ## The dialog -/

structure SyncOrderDialog where
  orderIndexList : List OrderIndex := []
  syncSubimt : Bool := false
  flag : Bool := false
  accepted : Bool := false
  /-- the dispatch numbers sent by `OnAsyncOrder` -/
  request : Option (List QString) := none
  shop : Shop

namespace SyncOrderDialog

/-- The order is on the server's list. -/
def onList (orderIndexList : List OrderIndex) (no : QString) : Bool :=
  orderIndexList.any (fun e => no == e.dispatchNo)

/-- Remove the local orders that are not on the list. -/
def removeOthers (orderIndexList : List OrderIndex) (db : DB) : DB :=
  db.queryAll.foldl
    (fun db order =>
      if onList orderIndexList order.moDispatchNo then db else db.removeOrder order.moDispatchNo) db

/-- `SyncOrderDialog::slot_protocol_other_sync_order`; the data type `0x01` is `AsAsyncOrder`. -/
def slotProtocolOtherSyncOrder (d : SyncOrderDialog) (response : MESOtherResponse) :
    SyncOrderDialog :=
  if response.dataType ≠ 0x01 then d
  else
    let list := d.orderIndexList ++ response.orderIndexList
    { d with
      orderIndexList := list
      shop := { d.shop with db := removeOthers list d.shop.db }
      flag := true }

/-- `Order::UpdateMainOrderFlag` for every entry of the list. -/
def updateFlags (orderIndexList : List OrderIndex) (db : DB) : DB :=
  orderIndexList.foldl (fun db e => db.updateMainOrderFlag e.dispatchNo e.serialNumber.toNat) db

/-- `SyncOrderDialog::_q_time_Start`. An empty list is accepted at once, and what follows is done
all the same. -/
def qTimeStart (d : SyncOrderDialog) : SyncOrderDialog :=
  if !d.syncSubimt then
    { d with syncSubimt := true, request := some (d.shop.db.queryAll.map (·.moDispatchNo)) }
  else if !d.flag then d
  else
    let d := if d.orderIndexList.length = 0 then { d with accepted := true } else d
    if d.orderIndexList.length = d.shop.db.countOrder then
      { d with
        shop := { d.shop with db := updateFlags d.orderIndexList d.shop.db }
        accepted := true }
    else d

inductive Event where
  /-- half a second has passed -/
  | tick
  /-- an answer to settings, as it came from the server -/
  | response (pack : MESPack)
  /-- the server dispatches an order -/
  | orderSend (order : Order) (materialList : List Material)

/-- One event. Nothing reaches a dialog that has accepted. -/
def step (d : SyncOrderDialog) : Event → Option SyncOrderDialog
  | .tick => if d.accepted then none else some d.qTimeStart
  | .response pack =>
    if d.accepted then none
    else match MESOtherResponse.decode pack with
      | none => some d
      | some response => some (d.slotProtocolOtherSyncOrder response)
  | .orderSend order materialList =>
    if d.accepted then none else some { d with shop := d.shop.onOrderSend order materialList }

/-! ## What it is for -/

abbrev rows (d : SyncOrderDialog) : List OrderRow := d.shop.db.order.rows

/-- The dispatch numbers of the list. -/
def nos (list : List OrderIndex) : List QString := list.map OrderIndex.dispatchNo

/-- The local orders are those of the list, and each has the number the list gives it. -/
structure Synced (list : List OrderIndex) (rows : List OrderRow) : Prop where
  nos : ∀ no, no ∈ rows.map OrderRow.moDispatchNo ↔ no ∈ SyncOrderDialog.nos list
  flags : ∀ r ∈ rows, ∀ e ∈ list, e.dispatchNo = r.moDispatchNo → r.mainOrderFlag = e.number

/-- The dialog is open and has no list yet. -/
structure Waiting (d : SyncOrderDialog) : Prop where
  list_eq : d.orderIndexList = []
  flag : d.flag = false
  open_ : d.accepted = false

/-- While it waits for the list to be complete, time passes and the server dispatches orders that
are on the list and missing here. -/
def Missing (d : SyncOrderDialog) : Event → Prop
  | .tick => True
  | .response _ => False
  | .orderSend order _ =>
    order.moDispatchNo ∈ nos d.orderIndexList ∧
      order.moDispatchNo ∉ d.rows.map OrderRow.moDispatchNo

instance (d : SyncOrderDialog) : (e : Event) → Decidable (d.Missing e)
  | .tick => inferInstanceAs (Decidable True)
  | .response _ => inferInstanceAs (Decidable False)
  | .orderSend _ _ => inferInstanceAs (Decidable (_ ∧ _))

/-- The local orders that stay. -/
def kept (list : List OrderIndex) (rows : List OrderRow) : List OrderRow :=
  rows.filter (fun r => onList list r.moDispatchNo)

/-- The main order goes while others stay, and so many orders are missing that the empty order makes
the count right. -/
def Miscounts (list : List OrderIndex) (rows : List OrderRow) : Prop :=
  [] ∉ nos list ∧ kept list rows ≠ [] ∧ ¬ DB.HasMain (kept list rows) ∧
    (kept list rows).length + 2 ≤ list.length ∧ list.length ≤ (nos list).dedup.length + 1

instance (list : List OrderIndex) (rows : List OrderRow) : Decidable (Miscounts list rows) :=
  inferInstanceAs (Decidable (_ ∧ _ ∧ _ ∧ _ ∧ _))

/-! ## The rows -/

theorem onList_iff {list : List OrderIndex} {no : QString} : onList list no ↔ no ∈ nos list := by
  constructor
  · intro h
    obtain ⟨e, he, heq⟩ := List.any_eq_true.mp h
    rw [beq_iff_eq.mp heq]
    exact List.mem_map_of_mem he
  · intro h
    obtain ⟨e, he, rfl⟩ := List.mem_map.mp h
    exact List.any_eq_true.mpr ⟨e, he, by simp⟩

theorem rows_removeOthers (list : List OrderIndex) (db : DB) :
    (removeOthers list db).order.rows = kept list db.order.rows := by
  have hfold : ∀ (l : List Order) (db : DB),
      (l.foldl (fun db order => if onList list order.moDispatchNo then db
        else db.removeOrder order.moDispatchNo) db).order.rows =
      db.order.rows.filter (fun r => !l.any (fun o =>
        !onList list o.moDispatchNo && r.moDispatchNo == o.moDispatchNo)) := by
    intro l
    induction l with
    | nil => simp
    | cons o l ih =>
      intro db
      rw [List.foldl_cons, ih]
      split
      · next h => simp [h]
      · next h =>
        show (db.order.rows.filter _).filter _ = _
        rw [List.filter_filter]
        apply List.filter_congr
        intro r _
        simp [h, Bool.and_comm]
  rw [removeOthers, hfold, kept]
  apply List.filter_congr
  intro r hr
  have hmem : ({ toOrderRow := r } : Order) ∈ db.queryAll :=
    List.mem_map_of_mem ((List.perm_insertionSort _ _).mem_iff.mpr hr)
  rw [Bool.eq_iff_iff, Bool.not_eq_true', List.any_eq_false]
  constructor
  · intro h
    simpa using h _ hmem
  · intro h o ho hno
    simp only [Bool.and_eq_true, Bool.not_eq_true', beq_iff_eq] at hno
    rw [hno.2, hno.1] at h
    cases h

theorem rows_updateFlags (list : List OrderIndex) (db : DB) :
    (updateFlags list db).order.rows = Adjustment.setFlags db.order.rows list := by
  induction list generalizing db with
  | nil => rfl
  | cons e es ih => exact ih (db.updateMainOrderFlag e.dispatchNo e.serialNumber.toNat)

/-! ## Dispatching the missing orders -/

/-- The rows of proper orders. -/
def filled (rows : List OrderRow) : List OrderRow := rows.filter (fun r => !(r.moDispatchNo == []))

variable {list : List OrderIndex} {K R R' : List OrderRow}

theorem mem_filled {r : OrderRow} : r ∈ filled R ↔ r ∈ R ∧ r.moDispatchNo ≠ [] := by
  simp [filled]

theorem filled_eq (h : ∀ r ∈ R, r.moDispatchNo ≠ []) : filled R = R := by
  apply List.filter_eq_self.mpr
  intro r hr
  simpa using h r hr

/-- Proper orders and one more. -/
theorem ne_nil_of_mem_append {row : OrderRow} (h : row.moDispatchNo ≠ []) :
    ∀ r ∈ filled R ++ [row], r.moDispatchNo ≠ [] := by
  intro r hr
  obtain hr | hr := List.mem_append.mp hr
  · exact (mem_filled.mp hr).2
  · rw [List.mem_singleton.mp hr]
    exact h

theorem mem_fillMain {r : OrderRow} (h : r ∈ DB.fillMain R) :
    r ∈ R ∨ (¬ DB.HasMain R ∧ r = emptyOrder) := by
  unfold DB.fillMain at h
  split at h
  · exact .inl h
  · next hm =>
    obtain h | h := List.mem_append.mp h
    · exact .inl (List.mem_filter.mp h).1
    · exact .inr ⟨hm, List.mem_singleton.mp h⟩

theorem fillMain_eq (h : ¬ DB.HasMain R) : DB.fillMain R = filled R ++ [emptyOrder] := by
  rw [DB.fillMain, if_neg h]
  congr 1
  apply List.filter_congr
  intro r _
  by_cases hr : r.moDispatchNo = [] <;> simp [hr]

theorem filled_fillMain (h : ∀ r ∈ R, r.moDispatchNo ≠ []) : filled (DB.fillMain R) = R := by
  by_cases hm : DB.HasMain R
  · rw [DB.fillMain, if_pos hm, filled_eq h]
  · rw [fillMain_eq hm, filled_eq h, filled, List.filter_append]
    exact (List.append_nil _).trans (filled_eq h)

/-- The table while the dialog waits: what stayed, and the orders that came since. An empty order is
among them only if the main order went and others stayed. -/
structure Grown (list : List OrderIndex) (K R : List OrderRow) : Prop where
  sub : ∀ r ∈ R, r.moDispatchNo ∈ nos list ∨ r.moDispatchNo = []
  empty : [] ∉ nos list → (∃ r ∈ R, r.moDispatchNo = []) →
    K ≠ [] ∧ ¬ DB.HasMain K ∧ K.length + 1 ≤ (filled R).length
  main : [] ∉ nos list → DB.HasMain K ∨ K = [] → DB.HasMain R ∨ R = []
  length_le : [] ∉ nos list → K.length ≤ (filled R).length

theorem mem_kept {rows : List OrderRow} {r : OrderRow} (h : r ∈ kept list rows) :
    r.moDispatchNo ∈ nos list :=
  onList_iff.mp (List.mem_filter.mp h).2

theorem ne_nil_of_mem_kept {rows : List OrderRow} (hnil : [] ∉ nos list) {r : OrderRow}
    (hr : r ∈ kept list rows) : r.moDispatchNo ≠ [] := by
  intro hno
  rw [← hno] at hnil
  exact hnil (mem_kept hr)

theorem grown_kept (rows : List OrderRow) : Grown list (kept list rows) (kept list rows) where
  sub r hr := .inl (mem_kept hr)
  empty hnil hex := by
    obtain ⟨r, hr, hno⟩ := hex
    exact absurd hno (ne_nil_of_mem_kept hnil hr)
  main _ h := h
  length_le hnil := by
    rw [filled_eq]
    intro r hr
    exact ne_nil_of_mem_kept hnil hr

theorem hasMain_append {row : OrderRow} (h : DB.HasMain R ∨ row.mainOrderFlag = 1) :
    DB.HasMain (R ++ [row]) := by
  obtain ⟨r, hr, hone⟩ | hone := h
  · exact ⟨r, List.mem_append_left _ hr, hone⟩
  · exact ⟨row, by simp, hone⟩

/-- If the main order stayed, or nothing did, the next order finds a main order. -/
theorem Grown.hasMain (h : Grown list K R) (hnil : [] ∉ nos list) (hK : DB.HasMain K ∨ K = [])
    {row : OrderRow} (hflag : row.mainOrderFlag = (((filled R).length + 1 : Nat) : Int)) :
    DB.HasMain (filled R ++ [row]) := by
  have hR : filled R = R := by
    apply filled_eq
    intro r hr hno
    obtain ⟨hne, hmain, -⟩ := h.empty hnil ⟨r, hr, hno⟩
    exact hK.elim hmain hne
  rw [hR] at hflag ⊢
  apply hasMain_append
  obtain hm | rfl := h.main hnil hK
  · exact .inl hm
  · exact .inr hflag

/-- One more order. -/
theorem Grown.orderSend (h : Grown list K R) {row : OrderRow} (hno : row.moDispatchNo ∈ nos list)
    (hflag : row.mainOrderFlag = (((filled R).length + 1 : Nat) : Int)) :
    Grown list K (DB.fillMain (filled R ++ [row])) := by
  have hproper : [] ∉ nos list → ∀ r ∈ filled R ++ [row], r.moDispatchNo ≠ [] := by
    intro hnil
    apply ne_nil_of_mem_append
    rintro hrno
    rw [hrno] at hno
    exact hnil hno
  have hlen : [] ∉ nos list → K.length + 1 ≤ (filled (DB.fillMain (filled R ++ [row]))).length := by
    intro hnil
    rw [filled_fillMain (hproper hnil), List.length_append]
    exact Nat.succ_le_succ (h.length_le hnil)
  refine ⟨?_, ?_, ?_, ?_⟩
  · intro r hr
    obtain hr | ⟨-, rfl⟩ := mem_fillMain hr
    · obtain hr | hr := List.mem_append.mp hr
      · exact h.sub r (mem_filled.mp hr).1
      · rw [List.mem_singleton.mp hr]
        exact .inl hno
    · exact .inr rfl
  · rintro hnil ⟨r, hr, hrno⟩
    -- only the empty order that `OnUpdate` stores has no number
    have hmain : ¬ DB.HasMain (filled R ++ [row]) := by
      intro hm
      rw [DB.fillMain, if_pos hm] at hr
      exact hproper hnil r hr hrno
    refine ⟨?_, ?_, hlen hnil⟩
    · intro hK
      exact hmain (h.hasMain hnil (.inr hK) hflag)
    · intro hK
      exact hmain (h.hasMain hnil (.inl hK) hflag)
  · intro hnil hK
    have hm := h.hasMain hnil hK hflag
    rw [DB.fillMain, if_pos hm]
    exact .inl hm
  · intro hnil
    exact Nat.le_of_succ_le (hlen hnil)

/-- When there are as many rows as entries, every row is on the list, unless the empty order is
among them, and then the main order had gone. -/
theorem Grown.mem_nos {rows : List OrderRow} (h : Grown list (kept list rows) R)
    (hkeys : (R.map OrderRow.moDispatchNo).Nodup) (hlen : R.length = list.length)
    (hc : ¬ Miscounts list rows) {r : OrderRow} (hr : r ∈ R) : r.moDispatchNo ∈ nos list := by
  obtain hno | hno := h.sub r hr
  · exact hno
  · by_contra hnil
    rw [hno] at hnil
    obtain ⟨hne, hmain, hle⟩ := h.empty hnil ⟨r, hr, hno⟩
    apply hc
    refine ⟨hnil, hne, hmain, ?_, ?_⟩
    · have hlt : (filled R).length < R.length := by
        apply List.length_filter_lt_length_iff_exists.mpr
        exact ⟨r, hr, by simp [hno]⟩
      omega
    · have hsubset : R.map OrderRow.moDispatchNo ⊆ [] :: (nos list).dedup := by
        intro no hmem
        obtain ⟨x, hx, rfl⟩ := List.mem_map.mp hmem
        obtain hx | hx := h.sub x hx
        · exact List.mem_cons_of_mem _ (List.mem_dedup.mpr hx)
        · rw [hx]
          exact List.mem_cons_self
      have := (List.subperm_of_subset hkeys hsubset).length_le
      rw [List.length_map, hlen] at this
      exact this

/-- **Equal counts.** When there are as many rows as entries and no empty order among them, the
orders are those of the list, and get its numbers. -/
theorem Grown.synced {rows : List OrderRow} (h : Grown list (kept list rows) R)
    (hkeys : (R.map OrderRow.moDispatchNo).Nodup) (hlen : R.length = list.length)
    (hc : ¬ Miscounts list rows) : Synced list (Adjustment.setFlags R list) := by
  have hperm : (R.map OrderRow.moDispatchNo).Perm (nos list) := by
    apply (List.subperm_of_subset hkeys _).perm_of_length_le
    · rw [nos, List.length_map, List.length_map, hlen]
    · intro no hmem
      obtain ⟨r, hr, rfl⟩ := List.mem_map.mp hmem
      exact h.mem_nos hkeys hlen hc hr
  have hnd : (list.map OrderIndex.dispatchNo).Nodup := hperm.nodup_iff.mp hkeys
  rw [Adjustment.setFlags_eq_map]
  refine ⟨?_, ?_⟩
  · intro no
    rw [List.map_map, ← hperm.mem_iff]
    rfl
  · intro r' hr' e he heq
    obtain ⟨r, -, rfl⟩ := List.mem_map.mp hr'
    have heq : e.dispatchNo = r.moDispatchNo := heq
    show Adjustment.flagAfter list r.moDispatchNo r.mainOrderFlag = e.number
    rw [← heq]
    exact Adjustment.flagAfter_of_mem hnd he

/-! ## Runs -/

variable {d d' : SyncOrderDialog} {rows : List OrderRow}

/-- The list is there and the dialog has not accepted yet. -/
structure Counting (list : List OrderIndex) (K : List OrderRow) (d : SyncOrderDialog) : Prop where
  list_eq : d.orderIndexList = list
  flag : d.flag = true
  open_ : d.accepted = false
  grown : Grown list K d.rows

/-- Still counting, or accepted with the orders of the list. -/
def Settles (list : List OrderIndex) (K : List OrderRow) (d : SyncOrderDialog) : Prop :=
  Counting list K d ∨ (d.accepted = true ∧ Synced list d.rows)

theorem step_tick (h : d.accepted = false) : d.step .tick = some d.qTimeStart := by
  rw [step, if_neg (by simp [h])]

theorem step_orderSend (h : d.accepted = false) (order : Order) (materialList : List Material) :
    d.step (.orderSend order materialList) =
      some { d with shop := d.shop.onOrderSend order materialList } := by
  rw [step, if_neg (by simp [h])]

/-- The rows after an order that was missing. -/
theorem rows_orderSend_missing (order : Order) (materialList : List Material)
    (h : order.moDispatchNo ∉ d.rows.map OrderRow.moDispatchNo) :
    ∃ row : OrderRow, row.moDispatchNo = order.moDispatchNo ∧
      row.mainOrderFlag = (((filled d.rows).length + 1 : Nat) : Int) ∧
      (d.shop.onOrderSend order materialList).db.order.rows =
        DB.fillMain (filled d.rows ++ [row]) := by
  obtain ⟨⟨r, hr, hno⟩, -⟩ | ⟨-, hrow⟩ :=
    @Shop.rows_onOrderSend d.shop order materialList _ rfl
  · rw [← hno] at h
    exact absurd (List.mem_map_of_mem (List.mem_filter.mp hr).1) h
  · exact hrow

/-- A tick that does not find the count right changes nothing but that the request is sent. -/
theorem qTimeStart_of_ne (hf : d.flag = true) (hl : d.orderIndexList ≠ [])
    (hne : d.orderIndexList.length ≠ d.rows.length) :
    ∃ request, d.qTimeStart = { d with syncSubimt := true, request := request } := by
  have hl' : d.orderIndexList.length ≠ 0 := by simpa using hl
  have hne' : d.orderIndexList.length ≠ d.shop.db.countOrder := hne
  cases hs : d.syncSubimt with
  | false => exact ⟨_, by rw [qTimeStart, if_pos (by simp [hs])]⟩
  | true =>
    refine ⟨d.request, ?_⟩
    have hstep : d.qTimeStart = d := by simp [qTimeStart, hs, hf, hl', hne']
    rw [hstep, ← hs]

/-- A tick that finds the count right. -/
theorem qTimeStart_of_eq (hs : d.syncSubimt = true) (hf : d.flag = true)
    (hl : d.orderIndexList ≠ []) (heq : d.orderIndexList.length = d.rows.length) :
    d.qTimeStart.accepted = true ∧
      d.qTimeStart.rows = Adjustment.setFlags d.rows d.orderIndexList := by
  have hl' : d.orderIndexList.length ≠ 0 := by simpa using hl
  have heq' : d.orderIndexList.length = d.shop.db.countOrder := heq
  have hstep : d.qTimeStart = { d with
      shop := { d.shop with db := updateFlags d.orderIndexList d.shop.db }
      accepted := true } := by
    unfold qTimeStart
    simp only [hs, hf, Bool.not_true, Bool.false_eq_true, if_false, if_neg hl', if_pos heq']
  rw [hstep]
  exact ⟨rfl, rows_updateFlags _ _⟩

/-- **One event.** The dialog goes on counting, or it accepts and the orders are those of the
list. -/
theorem Counting.settles_step (h : Counting list (kept list rows) d) (hl : list ≠ [])
    (hc : ¬ Miscounts list rows) {e : Event} (he : Missing d e)
    (hs : step d e = some d') : Settles list (kept list rows) d' := by
  have hl' : d.orderIndexList ≠ [] := by rwa [h.list_eq]
  cases e with
  | response pack => exact absurd he id
  | orderSend order materialList =>
    obtain ⟨hno, hnew⟩ := he
    rw [step_orderSend h.open_] at hs
    cases hs
    obtain ⟨row, hrno, hflag, hrows⟩ := rows_orderSend_missing order materialList hnew
    rw [h.list_eq, ← hrno] at hno
    refine .inl ⟨h.list_eq, h.flag, h.open_, ?_⟩
    show Grown list _ (d.shop.onOrderSend order materialList).db.order.rows
    rw [hrows]
    exact h.grown.orderSend hno hflag
  | tick =>
    rw [step_tick h.open_] at hs
    cases hs
    by_cases hlen : d.orderIndexList.length = d.rows.length
    · cases hsub : d.syncSubimt with
      | false =>
        -- the first tick only sends the request
        have hstep : d.qTimeStart = { d with
            syncSubimt := true, request := some (d.shop.db.queryAll.map (·.moDispatchNo)) } := by
          rw [qTimeStart, if_pos (by simp [hsub])]
        rw [hstep]
        exact .inl ⟨h.list_eq, h.flag, h.open_, h.grown⟩
      | true =>
        obtain ⟨hacc, hrows⟩ := qTimeStart_of_eq hsub h.flag hl' hlen
        refine .inr ⟨hacc, ?_⟩
        rw [hrows, h.list_eq]
        rw [h.list_eq] at hlen
        exact h.grown.synced d.shop.db.order.nodup hlen.symm hc
    · obtain ⟨request, hstep⟩ := qTimeStart_of_ne h.flag hl' hlen
      rw [hstep]
      exact .inl ⟨h.list_eq, h.flag, h.open_, h.grown⟩

/-- In a run, a dialog that accepts has the orders of the list. -/
theorem Counting.synced_of_run (h : Counting list (kept list rows) d) (hl : list ≠ [])
    (hc : ¬ Miscounts list rows) {post : List Event} {t : SyncOrderDialog}
    (hmeets : Meets step Missing d post)
    (hrun : run step d post = some t) (hacc : t.accepted = true) :
    Synced list t.rows := by
  have hinv : Settles list (kept list rows) t := by
    refine run_invariant ?_ (.inl h) hmeets hrun
    rintro d e d' (hd | ⟨hd, -⟩) he hs
    · exact hd.settles_step hl hc he hs
    · -- a dialog that has accepted takes no event
      cases e <;> simp [step, hd] at hs
  obtain hcount | ⟨-, hsync⟩ := hinv
  · rw [hcount.open_] at hacc
    cases hacc
  · exact hsync

/-! ## The run that goes wrong -/

/-- A dispatched order of which only the number matters. -/
def send (no : QString) : Event := .orderSend { moDispatchNo := no } []

/-- Without a main order, an order that comes leaves the empty order in the table. -/
theorem step_send {n : QString} (hopen : d.accepted = false) (hn : n ≠ [])
    (hnew : n ∉ d.rows.map OrderRow.moDispatchNo) (hne : filled d.rows ≠ [])
    (hmain : ¬ DB.HasMain (filled d.rows)) :
    ∃ shop row, d.step (send n) = some { d with shop := shop } ∧ row.moDispatchNo = n ∧
      shop.db.order.rows = filled d.rows ++ [row] ++ [emptyOrder] ∧
      filled shop.db.order.rows = filled d.rows ++ [row] ∧
      ¬ DB.HasMain (filled shop.db.order.rows) := by
  obtain ⟨row, hrno, hflag, hrows⟩ :=
    rows_orderSend_missing { moDispatchNo := n } [] hnew
  have hrno : row.moDispatchNo = n := hrno
  -- the new order is not the first one, so there is still no main order
  have hmain' : ¬ DB.HasMain (filled d.rows ++ [row]) := by
    rintro ⟨r, hr, hone⟩
    obtain hr | hr := List.mem_append.mp hr
    · exact hmain ⟨r, hr, hone⟩
    · rw [List.mem_singleton.mp hr, hflag] at hone
      have := List.length_pos_iff.mpr hne
      omega
  have hproper : ∀ r ∈ filled d.rows ++ [row], r.moDispatchNo ≠ [] := by
    apply ne_nil_of_mem_append
    rwa [hrno]
  rw [fillMain_eq hmain', filled_eq hproper] at hrows
  have hfilled : filled (filled d.rows ++ [row] ++ [emptyOrder]) = filled d.rows ++ [row] := by
    rw [filled, List.filter_append]
    exact (List.append_nil _).trans (filled_eq hproper)
  refine ⟨_, row, step_orderSend hopen _ _, hrno, hrows, ?_, ?_⟩
  · rw [hrows, hfilled]
  · rw [hrows, hfilled]
    exact hmain'

/-- Order after order, the empty one stays the last. -/
theorem run_sends (M : List QString) (hopen : d.accepted = false)
    (hmem : ∀ n ∈ M, n ∈ nos d.orderIndexList) (hnil : [] ∉ M) (hnd : M.Nodup)
    (hnew : ∀ n ∈ M, n ∉ d.rows.map OrderRow.moDispatchNo) (hne : filled d.rows ≠ [])
    (hmain : ¬ DB.HasMain (filled d.rows)) :
    ∃ shop, run step d (M.map send) = some { d with shop := shop } ∧
      Meets step Missing d (M.map send) ∧
      (filled shop.db.order.rows).length = (filled d.rows).length + M.length ∧
      (M ≠ [] ∨ d.rows = filled d.rows ++ [emptyOrder] →
        shop.db.order.rows = filled shop.db.order.rows ++ [emptyOrder]) := by
  induction M generalizing d with
  | nil => exact ⟨d.shop, rfl, trivial, rfl, fun h => h.resolve_left (fun hn => hn rfl)⟩
  | cons n M ih =>
    obtain ⟨hnM, hndM⟩ := List.nodup_cons.mp hnd
    obtain ⟨hn, hnilM⟩ : [] ≠ n ∧ [] ∉ M := by simpa using hnil
    have hnewn := hnew n List.mem_cons_self
    obtain ⟨shop, row, hstep, hrno, hrows, hfilled, hmain'⟩ :=
      step_send hopen hn.symm hnewn hne hmain
    have hnew' : ∀ m ∈ M, m ∉ shop.db.order.rows.map OrderRow.moDispatchNo := by
      intro m hm hrow
      rw [hrows] at hrow
      obtain ⟨r, hr, rfl⟩ := List.mem_map.mp hrow
      simp only [List.mem_append, List.mem_singleton] at hr
      obtain (hr | rfl) | rfl := hr
      · exact hnew _ (List.mem_cons_of_mem n hm) (List.mem_map_of_mem (mem_filled.mp hr).1)
      · rw [hrno] at hm
        exact hnM hm
      · exact hnilM hm
    have hne' : filled shop.db.order.rows ≠ [] := by
      rw [hfilled]
      simp
    obtain ⟨shop', hrun, hmeets, hlen, hempty⟩ := ih (d := { d with shop := shop }) hopen
      (fun m hm => hmem m (List.mem_cons_of_mem n hm)) hnilM hndM hnew' hne' hmain'
    refine ⟨shop', run_cons_eq_some.mpr ⟨_, hstep, hrun⟩, ⟨⟨hmem n List.mem_cons_self, hnewn⟩, ?_⟩,
      ?_, ?_⟩
    · rw [hstep]
      exact hmeets
    · have hlen : (filled shop'.db.order.rows).length =
        (filled shop.db.order.rows).length + M.length := hlen
      rw [hlen, hfilled]
      simp only [List.length_append, List.length_cons, List.length_nil]
      omega
    · intro _
      apply hempty
      right
      show shop.db.order.rows = filled shop.db.order.rows ++ [emptyOrder]
      rw [hfilled]
      exact hrows

/-- Orders that are missing, so many that with the empty one the count is right. -/
theorem Miscounts.exists_numbers (h : Miscounts list rows) :
    ∃ M : List QString, M.Nodup ∧ (∀ n ∈ M, n ∈ nos list) ∧ [] ∉ M ∧
      (∀ n ∈ M, n ∉ (kept list rows).map OrderRow.moDispatchNo) ∧ M ≠ [] ∧
      (kept list rows).length + M.length + 1 = list.length := by
  obtain ⟨hnil, -, -, hle, hdedup⟩ := h
  have hnd : (nos list).dedup.Nodup := List.nodup_dedup _
  generalize hold : (kept list rows).map OrderRow.moDispatchNo = old
  have hlen : (kept list rows).length = old.length := by rw [← hold, List.length_map]
  have hin : ((nos list).dedup.filter (fun n => n ∈ old)).length ≤ old.length := by
    apply (List.subperm_of_subset (hnd.sublist List.filter_sublist) _).length_le
    intro n hn
    simpa using (List.mem_filter.mp hn).2
  have hsplit := List.length_eq_length_filter_add (l := (nos list).dedup) (fun n => n ∈ old)
  have hsub : ((nos list).dedup.filter (fun n => !decide (n ∈ old))).take
      (list.length - 1 - old.length) ⊆ (nos list).dedup.filter (fun n => !decide (n ∈ old)) :=
    List.take_subset _ _
  have hmem : ∀ n ∈ (nos list).dedup.filter (fun n => !decide (n ∈ old)),
      n ∈ nos list ∧ n ∉ old := by
    intro n hn
    obtain ⟨hn, hold⟩ := List.mem_filter.mp hn
    exact ⟨List.mem_dedup.mp hn, by simpa using hold⟩
  refine ⟨_, (hnd.sublist List.filter_sublist).sublist (List.take_sublist _ _),
    fun n hn => (hmem n (hsub hn)).1, fun hn => hnil (hmem _ (hsub hn)).1,
    fun n hn => (hmem n (hsub hn)).2, ?_, ?_⟩
  · apply List.ne_nil_of_length_pos
    rw [List.length_take]
    omega
  · rw [List.length_take]
    omega

/-- **The early end.** All but one of the missing orders are dispatched, and the dialog accepts. -/
theorem Counting.exists_miscount (h : Counting list (kept list rows) d)
    (hrows : d.rows = kept list rows) (hc : Miscounts list rows) :
    ∃ post t, Meets step Missing d post ∧ run step d post = some t ∧ t.accepted = true ∧
      ¬ Synced list t.rows := by
  obtain ⟨M, hnd, hmem, hnilM, hnew, hne, hcount⟩ := hc.exists_numbers
  obtain ⟨hnil, hK, hmain, -, -⟩ := hc
  have hfilled : filled d.rows = kept list rows := by
    rw [hrows]
    apply filled_eq
    intro r hr
    exact ne_nil_of_mem_kept hnil hr
  have hl : d.orderIndexList ≠ [] := by
    rw [h.list_eq]
    rintro rfl
    simp at hcount
  obtain ⟨request, htick⟩ := qTimeStart_of_ne h.flag hl (by rw [h.list_eq, hrows]; omega)
  obtain ⟨shop, hrun, hmeets, hlen, hempty⟩ :=
    run_sends (d := { d with syncSubimt := true, request := request }) M h.open_
      (fun n hn => h.list_eq ▸ hmem n hn) hnilM hnd (fun n hn => hrows ▸ hnew n hn)
      (by rw [hfilled]; exact hK) (by rw [hfilled]; exact hmain)
  have hshop := hempty (.inl hne)
  have hlen : (filled shop.db.order.rows).length = (kept list rows).length + M.length := by
    rw [← hfilled]
    exact hlen
  have hfull : d.orderIndexList.length = shop.db.order.rows.length := by
    rw [h.list_eq, hshop, List.length_append, hlen, ← hcount]
    rfl
  obtain ⟨hacc, hflags⟩ := qTimeStart_of_eq
    (d := { d with syncSubimt := true, request := request, shop := shop }) rfl h.flag hl hfull
  have htick₁ : d.step .tick = some { d with syncSubimt := true, request := request } := by
    rw [step_tick h.open_, htick]
  have htick₂ := step_tick (d := { d with syncSubimt := true, request := request, shop := shop })
    h.open_
  refine ⟨.tick :: (M.map send ++ [.tick]), _, ⟨trivial, ?_⟩, run_cons_eq_some.mpr ⟨_, htick₁,
    run_concat_eq_some.mpr ⟨_, hrun, htick₂⟩⟩, hacc, ?_⟩
  · rw [htick₁]
    exact hmeets.glue hrun (.single trivial)
  · -- the empty order is in the table and not on the list
    intro hsync
    rw [hflags, Adjustment.setFlags_eq_map] at hsync
    apply hnil
    apply (hsync.nos []).mp
    rw [List.map_map]
    apply List.mem_map.mpr
    refine ⟨emptyOrder, ?_, rfl⟩
    show emptyOrder ∈ shop.db.order.rows
    rw [hshop]
    simp

/-! ## The result -/

/-- Without an answer the dialog waits. -/
theorem Waiting.step (h : Waiting d) {e : Event} (he : ∀ pack, e ≠ .response pack)
    (hs : SyncOrderDialog.step d e = some d') : Waiting d' := by
  cases e with
  | response pack => exact absurd rfl (he pack)
  | orderSend order materialList =>
    rw [step_orderSend h.open_] at hs
    cases hs
    exact ⟨h.list_eq, h.flag, h.open_⟩
  | tick =>
    rw [step_tick h.open_] at hs
    cases hs
    unfold qTimeStart
    split
    · exact ⟨h.list_eq, h.flag, h.open_⟩
    · rw [if_pos (by simp [h.flag])]
      exact h

theorem waiting_of_run {pre : List Event} (h : Waiting d) (hpre : run step d pre = some d')
    (hbefore : ∀ pack, .response pack ∉ pre) : Waiting d' := by
  induction pre generalizing d with
  | nil =>
    cases hpre
    exact h
  | cons e pre ih =>
    obtain ⟨d₁, hs, hr⟩ := run_cons_eq_some.mp hpre
    refine ih (h.step ?_ hs) hr ?_
    · rintro pack rfl
      exact hbefore pack List.mem_cons_self
    · intro pack hmem
      exact hbefore pack (List.mem_cons_of_mem e hmem)

/-- The list arrives. -/
theorem Waiting.counting (h : Waiting d) {response : MESOtherResponse}
    (htype : response.dataType = 0x01) :
    Counting response.orderIndexList (kept response.orderIndexList d.rows)
        (d.slotProtocolOtherSyncOrder response) ∧
      (d.slotProtocolOtherSyncOrder response).rows = kept response.orderIndexList d.rows := by
  have hrows := rows_removeOthers response.orderIndexList d.shop.db
  simp only [slotProtocolOtherSyncOrder, htype, h.list_eq, List.nil_append, ne_eq,
    not_true_eq_false, if_false]
  refine ⟨⟨rfl, rfl, h.open_, ?_⟩, hrows⟩
  show Grown _ _ (removeOthers response.orderIndexList d.shop.db).order.rows
  rw [hrows]
  exact grown_kept d.rows

/-- **Synchronisation.** Whatever happened before the list arrived, and in whatever order ticks and
missing orders come afterwards: a dialog that accepts has exactly the orders of the list with their
numbers, if and only if the empty order cannot make the count right. -/
theorem accepted_synced_iff {shop : Shop} {pre : List Event} {d : SyncOrderDialog}
    (hpre : run step { shop := shop } pre = some d) (hbefore : ∀ pack, .response pack ∉ pre)
    {pack : MESPack} {response : MESOtherResponse}
    (hdec : MESOtherResponse.decode pack = some response) (htype : response.dataType = 0x01)
    (hne : response.orderIndexList ≠ []) :
    (∀ post t, Meets step Missing (d.slotProtocolOtherSyncOrder response) post →
      run step d (.response pack :: post) = some t → t.accepted = true →
        Synced response.orderIndexList t.rows) ↔ ¬ Miscounts response.orderIndexList d.rows := by
  have hwait : Waiting d := waiting_of_run ⟨rfl, rfl, rfl⟩ hpre hbefore
  have hstep : d.step (.response pack) = some (d.slotProtocolOtherSyncOrder response) := by
    simp only [step, hwait.open_, Bool.false_eq_true, if_false, hdec]
  obtain ⟨hcount, hrows⟩ := hwait.counting htype
  constructor
  · intro h hc
    obtain ⟨post, t, hmeets, hrun, hacc, hnot⟩ := hcount.exists_miscount hrows hc
    exact hnot (h post t hmeets (run_cons_eq_some.mpr ⟨_, hstep, hrun⟩) hacc)
  · intro hc post t hmeets hrun hacc
    obtain ⟨d₁, hs, hrun⟩ := run_cons_eq_some.mp hrun
    rw [hstep] at hs
    cases hs
    exact hcount.synced_of_run hne hc hmeets hrun hacc

/-! ### Three orders on the list -/

/-- The orders `X` and `A` with their numbers. -/
def localOrders (flagX flagA : Int) : Shop where
  db.order := (Table.empty.replace { moDispatchNo := [88], mainOrderFlag := flagX }).replace
    { moDispatchNo := [65], mainOrderFlag := flagA }

/-- The answer of the server: its orders are `A`, `C` and `D`. -/
def answerACD : MESPack where
  cmdSerial := 0x95
  body := [1, 0, 3] ++ (1 :: 65 :: List.replicate 19 0) ++ (2 :: 67 :: List.replicate 19 0) ++
    (3 :: 68 :: List.replicate 19 0)

def listACD : MESOtherResponse where
  result := .sucess
  dataType := 1
  orderIndexList := [⟨1, [65], []⟩, ⟨2, [67], []⟩, ⟨3, [68], []⟩]

theorem decode_answerACD : MESOtherResponse.decode answerACD = some listACD := by decide +kernel

/-- The dialog after its first tick. -/
def asked (shop : Shop) : SyncOrderDialog := qTimeStart { shop := shop }

theorem run_asked (shop : Shop) : run step { shop := shop } [.tick] = some (asked shop) := rfl

theorem accepted_synced_main_stays :
    ¬ Miscounts listACD.orderIndexList (asked (localOrders 2 1)).rows ∧ ∀ post t,
      Meets step Missing ((asked (localOrders 2 1)).slotProtocolOtherSyncOrder listACD) post →
      run step (asked (localOrders 2 1)) (.response answerACD :: post) = some t →
      t.accepted = true → Synced listACD.orderIndexList t.rows := by
  have hc : ¬ Miscounts listACD.orderIndexList (asked (localOrders 2 1)).rows := by decide +kernel
  exact ⟨hc, (accepted_synced_iff (run_asked (localOrders 2 1)) (by simp) decode_answerACD rfl
    (by decide)).mpr hc⟩

/-- `X` was the main order and is removed; `C` is dispatched, the empty order comes with it, and the
dialog accepts without `D`. -/
theorem not_synced_main_goes :
    ¬ ∀ (shop : Shop) (pre : List Event) (d : SyncOrderDialog) (pack : MESPack)
      (response : MESOtherResponse) (post : List Event) (t : SyncOrderDialog),
      run step { shop := shop } pre = some d → (∀ pack, .response pack ∉ pre) →
      MESOtherResponse.decode pack = some response → response.dataType = 0x01 →
      response.orderIndexList ≠ [] → response.orderIndexList.Nodup →
      Meets step Missing (d.slotProtocolOtherSyncOrder response) post →
      run step d (.response pack :: post) = some t → t.accepted = true →
      Synced response.orderIndexList t.rows := by
  intro h
  have hrun : (run step (asked (localOrders 1 2)) [.response answerACD, send [67], .tick]).any
      (fun t => t.accepted && decide ([] ∈ t.rows.map OrderRow.moDispatchNo)) = true := by
    decide +kernel
  obtain ⟨t, ht, hbad⟩ := (Option.any_eq_true _ _).mp hrun
  obtain ⟨hacc, hmem⟩ := Bool.and_eq_true_iff.mp hbad
  have hsync := h (localOrders 1 2) [.tick] (asked (localOrders 1 2)) answerACD listACD
    [send [67], .tick] t (run_asked _) (by simp) decode_answerACD rfl (by decide) (by decide)
    (by decide +kernel) ht hacc
  have := (hsync.nos []).mp (of_decide_eq_true hmem)
  exact absurd this (by decide)

end SyncOrderDialog

end ProgrammingPath.Mes
