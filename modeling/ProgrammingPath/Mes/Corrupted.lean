import ProgrammingPath.Mes.Dispatch

/-!
# Frames with a wrong checksum

`parseReadBuff` logs that a checksum is wrong and handles the packet all the same. What becomes of
it is up to the handler: the decoders of the registration and of the downloads notice the wrong
checksum and succeed, with the defaults in every other field, and the other decoders do not look.

`Inert` says, command by command, in which states such a packet still does no harm, and
`unchanged_of_meets` that in any run whose corrupted packets are inert none of them changes the
registration, the orders, the records waiting for upload or the downloads. The default of
`FDAT_PmsPermit` is "registered", so a corrupted answer to the registration is inert only once the
terminal is registered.
-/

namespace ProgrammingPath.Mes

open ProgrammingPath.Qt ProgrammingPath.Lib

namespace App

variable {app : App} {pack : MESPack}

/-! ## The condition -/

/-- The task of mould records waits for the answer to a record that is still stored. -/
def waits1 (app : App) : Bool :=
  app.tasks.task1.any fun task =>
    task.connected && app.shop.db.producted.rows.any (·.id == task.producted.id)

/-- The task of notes waits for the answer to a note of this type that is still stored. -/
def waits2 (app : App) (type : NotebookType) : Bool :=
  app.tasks.task2.any fun task =>
    task.connected && task.notebook.type == type &&
      app.shop.db.notebook.rows.any (·.id == task.notebook.id)

/-- A dispatched order that changes no row of `tb_order`: its number is taken, and there is no
empty order to be removed. -/
def OrderInert (app : App) (request : MESOrderRequest) : Prop :=
  (∃ r ∈ app.shop.db.order.rows, r.moDispatchNo = request.order.moDispatchNo) ∧
    ∀ r ∈ app.shop.db.order.rows, r.moDispatchNo ≠ []

/-- A control command that changes neither orders nor notes nor downloads. -/
@[mk_iff] structure ControlInert (app : App) (request : MESControlRequest) : Prop where
  /-- a download without a file name cannot start -/
  fileDown : request.dataType = 0x04 → request.fileName = []
  /-- every order named has the number it is given, and there is a main order -/
  adjust : request.dataType = 0x07 →
    ∀ i ∈ request.orderIndexList, DB.HasMain app.shop.db.order.rows ∧
      ∀ r ∈ app.shop.db.order.rows, r.moDispatchNo = i.dispatchNo →
        r.mainOrderFlag = i.serialNumber.toNat
  /-- a change of order is noted in any case -/
  replace : request.dataType ≠ 0x09
  /-- an order that was begun is not deleted -/
  delete : request.dataType = 0x0E → ∀ r ∈ app.shop.db.order.rows,
    r.moDispatchNo = request.dispatchNo → r.moTotalNum > 0

/-- A packet with a wrong checksum that does no harm in this state. -/
@[mk_iff] structure Inert (app : App) (pack : MESPack) : Prop where
  regdev : pack.cmdSerial = 0x81 → app.net.regResult = .regOk
  produce : pack.cmdSerial = 0x90 → app.waits1 = false
  icCard : pack.cmdSerial = 0x91 → app.waits2 .brushCard = false
  defectiveInfo : pack.cmdSerial = 0x93 → app.waits2 .defectiveInfo = false
  adjMachine : pack.cmdSerial = 0x94 → app.waits2 .adjMachine = false
  other : pack.cmdSerial = 0x95 → app.waits2 (.otherSetInfo pack.readQUint8.1) = false
  qualityRegulate : pack.cmdSerial = 0x96 → app.waits2 .qualityRegulate = false
  /-- both go to the handler of sync signals -/
  wifiSignal : pack.cmdSerial = 0x97 ∨ pack.cmdSerial = 0xD0 → pack.body.length < 5 →
    app.waits2 .defectiveInfo = false
  fileDown : pack.cmdSerial = 0xC0 ∨ pack.cmdSerial = 0xC1 → app.downs.active = []
  order : pack.cmdSerial = 0xD0 → 5 ≤ pack.body.length →
    ∀ request ∈ MESOrderRequest.decode app.shop.db pack, app.OrderInert request
  controlDev : pack.cmdSerial = 0xD7 →
    ∀ request ∈ MESControlRequest.decode pack, app.ControlInert request

instance (request : MESOrderRequest) : Decidable (app.OrderInert request) :=
  inferInstanceAs (Decidable (_ ∧ _))

instance (request : MESControlRequest) : Decidable (app.ControlInert request) :=
  decidable_of_iff' _ (controlInert_iff app request)

instance : Decidable (app.Inert pack) := decidable_of_iff' _ (inert_iff app pack)

/-! ## One packet -/

/-- Nothing that the packet must leave alone has changed. -/
structure Unchanged (app app' : App) : Prop where
  regResult : app'.net.regResult = app.net.regResult
  order : app'.shop.db.order = app.shop.db.order
  notebook : app'.shop.db.notebook = app.shop.db.notebook
  producted : app'.shop.db.producted = app.shop.db.producted
  active : app'.downs.active = app.downs.active

/-- The signal goes to the tasks. -/
def toTasks : Signal → Bool
  | .order _ | .controlDev _ | .connectBSucess | .fileDown _ | .fileDownStream _ => false
  | _ => true

theorem onSignal_of_toTasks {signal : Signal} (h : toTasks signal = true) :
    app.onSignal signal =
      { app with
        tasks := (app.tasks.onSignal app.shop.db signal).1
        shop := { app.shop with db := (app.tasks.onSignal app.shop.db signal).2 } } := by
  cases signal <;> first | rfl | cases h

variable {net : Net} {sock : Sock}

/-- An answer, when the records that the tasks wait for are gone. -/
theorem unchanged_answer {signal : Signal} (hnet : net.regResult = app.net.regResult)
    (hroute : toTasks signal = true)
    (h1 : ∀ task, app.tasks.task1 = some task → task.accepts signal = true →
      ∀ r ∈ app.shop.db.producted.rows, r.id ≠ task.producted.id)
    (h2 : ∀ task, app.tasks.task2 = some task → task.accepts signal = true →
      ∀ r ∈ app.shop.db.notebook.rows, r.id ≠ task.notebook.id) :
    Unchanged app (app.handle (net, [.emit signal])) := by
  obtain ⟨hnotes, hmoulds⟩ := Tasks.records_onSignal h1 h2
  show Unchanged app (({ app with net := net } : App).onSignal signal)
  rw [onSignal_of_toTasks hroute]
  exact ⟨hnet, Tasks.order_onSignal _ _ _, hnotes, hmoulds, rfl⟩

theorem ne_of_waits1 (h : app.waits1 = false) {task : TaskProducted}
    (htask : app.tasks.task1 = some task) (hconn : task.connected = true) :
    ∀ r ∈ app.shop.db.producted.rows, r.id ≠ task.producted.id := by
  simpa [waits1, htask, hconn] using h

theorem ne_of_waits2 {type : NotebookType} (h : app.waits2 type = false) {task : TaskNotebook}
    (htask : app.tasks.task2 = some task) (hconn : task.connected = true)
    (htype : task.notebook.type = type) :
    ∀ r ∈ app.shop.db.notebook.rows, r.id ≠ task.notebook.id := by
  simpa [waits2, htask, hconn, htype] using h

/-- The answer to a mould record. -/
theorem unchanged_produce (hnet : net.regResult = app.net.regResult) (h : app.waits1 = false)
    (type : UInt8) (result : FDATResult) :
    Unchanged app (app.handle (net, [.emit (.produce type result)])) := by
  refine unchanged_answer hnet rfl (fun task htask hacc => ?_) (fun task _ hacc => ?_)
  · simp only [TaskProducted.accepts, Bool.and_eq_true] at hacc
    exact ne_of_waits1 h htask hacc.1
  · cases htype : task.notebook.type <;> simp [TaskNotebook.accepts, htype] at hacc

/-- The type of the notes that the signal answers. -/
def noteType : Signal → Option NotebookType
  | .icCard _ _ => some .brushCard
  | .defectiveInfo _ => some .defectiveInfo
  | .adjMachine _ => some .adjMachine
  | .other response => some (.otherSetInfo response.dataType)
  | .qualityRegulate _ => some .qualityRegulate
  | _ => none

/-- The answer to a note, when the task does not wait for one to a note of this type. -/
theorem unchanged_note {type : NotebookType} {signal : Signal}
    (hnet : net.regResult = app.net.regResult) (h : app.waits2 type = false)
    (hsignal : noteType signal = some type) : Unchanged app (app.handle (net, [.emit signal])) := by
  refine unchanged_answer hnet ?_ (fun task _ hacc => ?_) (fun task htask hacc => ?_)
  · cases signal <;> first | rfl | cases hsignal
  · cases signal <;> first | cases hacc | cases hsignal
  · have hconn : task.connected = true := ((Bool.and_eq_true _ _).mp hacc).1
    have htype : task.notebook.type = type := by
      unfold TaskNotebook.accepts at hacc
      cases hnote : task.notebook.type <;> cases signal <;> simp_all [noteType]
    exact ne_of_waits2 h htask hconn htype

/-- A dispatched order that is refused. -/
theorem unchanged_order (hnet : net.regResult = app.net.regResult) {request : MESOrderRequest}
    (h : app.OrderInert request) :
    Unchanged app (app.handle (net, [.emit (.order request)])) := by
  obtain ⟨⟨r, hr, hno⟩, hne⟩ := h
  have horder : (app.shop.db.removeOrder []).order = app.shop.db.order := by
    rw [DB.removeOrder]
    exact Table.delete_of_forall (fun r hr => by simpa using hne r hr)
  have hcount : (app.shop.db.removeOrder []).countMODispatchNo request.order.moDispatchNo ≠ 0 := by
    rw [DB.countMODispatchNo, horder, ← Nat.pos_iff_ne_zero, List.countP_pos_iff]
    exact ⟨r, hr, by simpa using hno⟩
  have hsend : app.shop.onOrderSend request.order request.materialList =
      { app.shop with db := app.shop.db.removeOrder [] } := by
    rw [Shop.onOrderSend]
    exact if_pos hcount
  have hdb : (app.handle (net, [.emit (.order request)])).shop.db = app.shop.db.removeOrder [] := by
    show (app.shop.onOrderSend request.order request.materialList).db = _
    rw [hsend]
  exact ⟨hnet, by rw [hdb, horder], by rw [hdb]; rfl, by rw [hdb]; rfl, rfl⟩

/-- Giving the orders the numbers they have. -/
theorem adjustOrders_of_same (shop : Shop) {entries : List OrderIndex}
    (h : ∀ i ∈ entries, DB.HasMain shop.db.order.rows ∧ ∀ r ∈ shop.db.order.rows,
      r.moDispatchNo = i.dispatchNo → r.mainOrderFlag = i.serialNumber.toNat) :
    (shop.adjustOrders entries).db = shop.db := by
  unfold Shop.adjustOrders
  induction entries generalizing shop with
  | nil => rfl
  | cons i entries ih =>
    obtain ⟨hmain, hsame⟩ := h i (by simp)
    have hupdate : shop.db.updateMainOrderFlag i.dispatchNo i.serialNumber.toNat = shop.db := by
      rw [DB.updateMainOrderFlag, Table.update_of_forall]
      intro r hr hno
      rw [← hsame r hr (by simpa using hno)]
    have hmodify : (shop.onOrderModify i.serialNumber.toNat i.dispatchNo).db = shop.db := by
      rw [Shop.onOrderModify, Shop.db_onUpdate]
      dsimp only
      rw [hupdate, DB.onUpdate_of_hasMain hmain]
    rw [List.foldl_cons, ih _ (fun j hj => ?_), hmodify]
    rw [hmodify]
    exact h j (by simp [hj])

/-- A control command that changes nothing. -/
theorem unchanged_controlDev (hnet : net.regResult = app.net.regResult)
    {request : MESControlRequest} (h : app.ControlInert request) :
    Unchanged app (app.handle (net, [.emit (.controlDev request)])) := by
  have hcontrol : Unchanged app (({ app with net := net } : App).control request) := by
    unfold control
    split
    · next htype =>
      have hname := h.fileDown (UInt8.toNat_inj.mp htype)
      rw [Downloads.start, if_pos hname]
      exact ⟨hnet, rfl, rfl, rfl, rfl⟩
    · next htype =>
      have hdb := adjustOrders_of_same app.shop (h.adjust (UInt8.toNat_inj.mp htype))
      exact ⟨hnet, congrArg DB.order hdb, congrArg DB.notebook hdb, congrArg DB.producted hdb, rfl⟩
    · next htype => exact absurd (UInt8.toNat_inj.mp htype) h.replace
    · next htype =>
      have hbegun := h.delete (UInt8.toNat_inj.mp htype)
      have hkeep : app.shop.onOrderDelete request.dispatchNo = app.shop := by
        unfold Shop.onOrderDelete
        split
        · rfl
        · next order horder =>
          obtain ⟨r, hr, rfl⟩ := Option.map_eq_some_iff.mp horder
          obtain ⟨hr, hno⟩ := Table.lookup_eq_some.mp hr
          exact if_pos (hbegun r hr hno)
      refine ⟨hnet, ?_, ?_, ?_, rfl⟩ <;> dsimp only <;> rw [hkeep]
    · exact ⟨hnet, rfl, rfl, rfl, rfl⟩
  exact ⟨hcontrol.regResult, hcontrol.order, hcontrol.notebook, hcontrol.producted, hcontrol.active⟩

/-- A response to downloads, when there are none. -/
theorem unchanged_fileDown (hnet : net.regResult = app.net.regResult) (h : app.downs.active = [])
    {signal : Signal} (hsignal : (∃ response, signal = .fileDown response) ∨
      ∃ response, signal = .fileDownStream response) :
    Unchanged app (app.handle (net, [.emit signal])) := by
  rcases hsignal with ⟨response, rfl⟩ | ⟨response, rfl⟩
  · show Unchanged app (({ app with net := net } : App).onDown (app.downs.onFileDown response))
    rw [Downloads.onFileDown, h]
    exact ⟨hnet, rfl, rfl, rfl, h.symm⟩
  · show Unchanged app (({ app with net := net } : App).onDown (app.downs.onFileDownStream response))
    rw [Downloads.onFileDownStream, h]
    exact ⟨hnet, rfl, rfl, rfl, h.symm⟩

/-- A notice; the tasks do not listen to it. -/
theorem unchanged_mail (hnet : net.regResult = app.net.regResult) (request : MESNoticeRequest)
    (sock : Sock) :
    Unchanged app (app.handle (net, [.emit (.mail request), .write sock .mailResponse])) := by
  have hsignal : Unchanged app (app.handle (net, [.emit (.mail request)])) := by
    refine unchanged_answer hnet rfl (fun task _ hacc => ?_) (fun task _ hacc => ?_)
    · cases hacc
    · cases htype : task.notebook.type <;> simp [TaskNotebook.accepts, htype] at hacc
  exact ⟨hsignal.regResult, hsignal.order, hsignal.notebook, hsignal.producted, hsignal.active⟩

/-- The decoder of registrations succeeds, but the terminal is registered already. -/
theorem protocolRegdevParse_corrupted (hcmd : pack.cmdSerial = 0x81) (hcheck : pack.checkFlag = false)
    (hreg : net.regResult = .regOk) : net.protocolRegdevParse pack = (net, []) := by
  simp [Net.protocolRegdevParse, MESRegResponse.decode, hcmd, hcheck, hreg]

/-- The two decoders of downloads succeed as well. -/
theorem protocolFileDownParse_corrupted (hcmd : pack.cmdSerial = 0xC0 ∨ pack.cmdSerial = 0xC1)
    (hcheck : pack.checkFlag = false) : ∃ signal, Net.protocolFileDownParse pack = [.emit signal] ∧
      ((∃ response, signal = .fileDown response) ∨ ∃ response, signal = .fileDownStream response) := by
  rcases hcmd with hcmd | hcmd
  · refine ⟨_, ?_, .inl ⟨{ result := .checkSumErr }, rfl⟩⟩
    simp [Net.protocolFileDownParse, MESFileDownResponse.decode, hcmd, hcheck]
  · refine ⟨_, ?_, .inr ⟨{ result := .checkSumErr }, rfl⟩⟩
    simp [Net.protocolFileDownParse, MESFileDownResponse.decode, MESFileDownStreamResponse.decode,
      hcmd, hcheck]

/-- The case of `0xD0`, with the packets that run into it. -/
theorem unchanged_d0 (hnet : net.regResult = app.net.regResult)
    (hcmd : pack.cmdSerial = 0x97 ∨ pack.cmdSerial = 0xD0) (h : app.Inert pack) :
    Unchanged app (app.handle (Net.call app.shop.db net sock pack
      (if pack.body.length < 5 then .wifiSignal else .order))) := by
  split
  · next hshort => exact unchanged_note hnet (h.wifiSignal hcmd hshort) rfl
  · next hlong =>
    simp only [Net.call, Net.protocolOrderParse]
    split
    · exact ⟨hnet, rfl, rfl, rfl, rfl⟩
    · next request hrequest =>
      -- the decoder accepts no other command
      have hd0 : pack.cmdSerial = 0xD0 := by
        by_contra hne
        simp [MESOrderRequest.decode, hne] at hrequest
      exact unchanged_order hnet (h.order hd0 (Nat.le_of_not_lt hlong) request hrequest)

/-- A corrupted packet that is inert leaves everything as it was. -/
theorem unchanged_dispatch (hnet : net.regResult = app.net.regResult)
    (hcheck : pack.checkFlag = false) (h : app.Inert pack) :
    Unchanged app (app.handle (net.dispatch app.shop.db sock pack)) := by
  have hnil : Unchanged app (app.handle (net, [])) := ⟨hnet, rfl, rfl, rfl, rfl⟩
  by_cases hknown : pack.cmdSerial ∈ Net.commands
  · simp only [Net.commands, List.mem_cons, List.not_mem_nil, or_false] at hknown
    rcases hknown with hcmd | hcmd | hcmd | hcmd | hcmd | hcmd | hcmd | hcmd | hcmd | hcmd | hcmd |
      hcmd | hcmd
    · -- 0x81
      rw [@Net.dispatch_of_handlers _ _ _ _ .regdev (by simp [Net.handlers, hcmd]), Net.call,
        protocolRegdevParse_corrupted hcmd hcheck (hnet.trans (h.regdev hcmd))]
      exact hnil
    · -- 0x90
      rw [@Net.dispatch_of_handlers _ _ _ _ .produce (by simp [Net.handlers, hcmd])]
      exact unchanged_produce hnet (h.produce hcmd) _ _
    · -- 0x91
      rw [@Net.dispatch_of_handlers _ _ _ _ .icCard (by simp [Net.handlers, hcmd])]
      exact unchanged_note hnet (h.icCard hcmd) rfl
    · -- 0x93
      rw [@Net.dispatch_of_handlers _ _ _ _ .defectiveInfo (by simp [Net.handlers, hcmd])]
      exact unchanged_note hnet (h.defectiveInfo hcmd) rfl
    · -- 0x94
      rw [@Net.dispatch_of_handlers _ _ _ _ .adjMachine (by simp [Net.handlers, hcmd])]
      simp only [Net.call, Net.protocolAdjMachineParse]
      split
      · exact hnil
      · exact unchanged_note hnet (h.adjMachine hcmd) rfl
    · -- 0x95
      rw [@Net.dispatch_of_handlers _ _ _ _ .other (by simp [Net.handlers, hcmd])]
      simp only [Net.call, Net.protocolOtherParse]
      split
      · exact hnil
      · next response hresponse =>
        apply unchanged_note hnet (h.other hcmd)
        rw [← MESOtherResponse.dataType_of_decode hresponse]
        rfl
    · -- 0x96
      rw [@Net.dispatch_of_handlers _ _ _ _ .qualityRegulate (by simp [Net.handlers, hcmd])]
      exact unchanged_note hnet (h.qualityRegulate hcmd) rfl
    · -- 0x97: its own handler does nothing, and the case runs on
      have hhandlers : Net.handlers pack =
          [.pda, if pack.body.length < 5 then .wifiSignal else .order] := by
        by_cases hshort : pack.body.length < 5 <;> simp [Net.handlers, hcmd, hshort]
      have hd : net.dispatch app.shop.db sock pack = Net.call app.shop.db net sock pack
          (if pack.body.length < 5 then .wifiSignal else .order) := by
        rw [Net.dispatch, hhandlers]
        simp [Net.callAll, Net.call, Net.protocolPdaParse]
      rw [hd]
      exact unchanged_d0 hnet (.inl hcmd) h
    · -- 0xC0
      obtain ⟨signal, hparse, hsignal⟩ := protocolFileDownParse_corrupted (.inl hcmd) hcheck
      rw [@Net.dispatch_of_handlers _ _ _ _ .fileDown (by simp [Net.handlers, hcmd]), Net.call, hparse]
      exact unchanged_fileDown hnet (h.fileDown (.inl hcmd)) hsignal
    · -- 0xC1
      obtain ⟨signal, hparse, hsignal⟩ := protocolFileDownParse_corrupted (.inr hcmd) hcheck
      rw [@Net.dispatch_of_handlers _ _ _ _ .fileDown (by simp [Net.handlers, hcmd]), Net.call, hparse]
      exact unchanged_fileDown hnet (h.fileDown (.inr hcmd)) hsignal
    · -- 0xD0
      have hhandlers : Net.handlers pack =
          [if pack.body.length < 5 then .wifiSignal else .order] := by
        by_cases hshort : pack.body.length < 5 <;> simp [Net.handlers, hcmd, hshort]
      rw [Net.dispatch_of_handlers hhandlers]
      exact unchanged_d0 hnet (.inr hcmd) h
    · -- 0xD7
      rw [@Net.dispatch_of_handlers _ _ _ _ .controlDev (by simp [Net.handlers, hcmd])]
      simp only [Net.call, Net.protocolControlDevParse]
      split
      · exact hnil
      · next request hrequest => exact unchanged_controlDev hnet (h.controlDev hcmd request hrequest)
    · -- 0xD8
      rw [@Net.dispatch_of_handlers _ _ _ _ .mail (by simp [Net.handlers, hcmd])]
      simp only [Net.call, Net.protocolMailParse]
      split
      · exact hnil
      · exact unchanged_mail hnet _ _
  · rw [Net.dispatch, Net.handlers_of_not_mem hknown]
    exact hnil

/-! ## Registration -/

theorem regdev_mem_handlers (h : .regdev ∈ Net.handlers pack) : pack.cmdSerial = 0x81 := by
  rw [← UInt8.toNat_inj]
  unfold Net.handlers at h
  dsimp only at h
  split at h
  case h_1 heq => exact heq
  all_goals grind

/-- Only the handler of registrations changes the state of the connection. -/
theorem fst_dispatch {db : DB} (hcmd : pack.cmdSerial ≠ 0x81) :
    (net.dispatch db sock pack).1 = net := by
  have hcall : ∀ (net : Net) (k : Net.Handler), k ≠ .regdev → (net.call db sock pack k).1 = net := by
    intro net k hk
    cases k <;> first | rfl | exact absurd rfl hk
  have hall : ∀ (hs : List Net.Handler), .regdev ∉ hs → (Net.callAll db sock pack net hs).1 = net := by
    intro hs
    induction hs with
    | nil => exact fun _ => rfl
    | cons k hs ih =>
      intro hmem
      rw [List.mem_cons, not_or] at hmem
      simp only [Net.callAll, hcall net k (Ne.symm hmem.1), ih hmem.2]
  exact hall _ (fun hmem => hcmd (regdev_mem_handlers hmem))

/-- The effects of a successful registration. -/
def registers : Effect → Bool
  | .connectToHost .b => true
  | .emit (.signalReg true _ _) => true
  | _ => false

/-- They come only from an answer to the registration, when the terminal was not registered. -/
theorem registers_of_mem {db : DB} {eff : Effect} (h : eff ∈ (net.dispatch db sock pack).2)
    (hreg : registers eff = true) : pack.cmdSerial = 0x81 ∧ net.regResult ≠ .regOk := by
  have hcmd : pack.cmdSerial = 0x81 := by
    obtain ⟨net', k, hk, hmem⟩ := Net.mem_callAll h
    cases k with
    | regdev => exact regdev_mem_handlers hk
    | _ =>
      simp only [Net.call, Net.protocolProduceParse, Net.protocolIcCardParse,
        Net.protocolDefectiveInfoParse, Net.protocolAdjMachineParse, Net.protocolOtherParse,
        Net.protocolQualityRegulateParse, Net.protocolFileDownParse, Net.protocolPdaParse,
        Net.protocolWifiSignalParse, Net.protocolOrderParse, Net.protocolControlDevParse,
        Net.protocolMailParse] at hmem
      grind [registers]
  refine ⟨hcmd, fun hok => ?_⟩
  rw [@Net.dispatch_of_handlers _ _ _ _ .regdev (by simp [Net.handlers, hcmd]), Net.call] at h
  unfold Net.protocolRegdevParse at h
  split at h
  · cases h
  · rw [if_pos hok] at h
    cases h

theorem net_onDown (app : App) (r : Downloads × List DownEffect) : (app.onDown r).net = app.net :=
  foldl_frame App.net (fun _ e => by cases e <;> rfl) _ _

/-- Effects leave the connection as it is. -/
theorem net_handle (r : Net × List Effect) : (app.handle r).net = r.1 := by
  have heffect : ∀ (app : App) (eff : Effect), (app.onEffect eff).net = app.net := by
    intro app eff
    cases eff with
    | emit signal =>
      cases signal with
      | connectBSucess => exact foldl_frame App.net (fun _ _ => net_onDown _ _) _ _
      | controlDev request =>
        show (app.control request).net = app.net
        unfold control
        split <;> first | exact net_onDown _ _ | rfl
      | fileDown response => exact net_onDown _ _
      | fileDownStream response => exact net_onDown _ _
      | _ => rfl
    | _ => rfl
  exact foldl_frame App.net heffect _ _

/-- An event other than a read does not register the terminal. -/
theorem regResult_onEvent {db : DB} {e : Net.Event} (hread : ∀ sock array, e ≠ .readyRead sock array)
    (h : net.regResult ≠ .regOk) :
    (net.onEvent db e).1.regResult ≠ .regOk ∧ ∀ eff ∈ (net.onEvent db e).2, registers eff = false := by
  cases e with
  | readyRead sock array => exact absurd rfl (hread sock array)
  | start => simp [Net.onEvent, Net.start, Net.close, registers]
  | close => simp [Net.onEvent, Net.close, registers]
  | restart => simp [Net.onEvent, Net.start, Net.close, registers]
  | connected sock =>
    cases sock <;>
      simp [Net.onEvent, Net.slotConnectedA, Net.slotConnectedB, Net.addRequestA, registers, h]
  | closed sock =>
    cases sock <;> simp [Net.onEvent, Net.slotClosedA, Net.slotClosedB, registers, h]
  | error sock err =>
    cases sock <;> cases err <;> simp [Net.onEvent, Net.slotErrorA, Net.slotErrorB, registers, h]
  | regTimeOut => simp [Net.onEvent, Net.slotRegTimeOut, registers, h]
  | startNextRequestA =>
    simp only [Net.onEvent, Net.startNextRequestA]
    split <;> simp [registers, h]

/-! ## Steps and runs -/

/-- The condition on a step: a packet that is handled with a wrong checksum is inert. -/
def CorruptOk (app : App) (e : Event) : Prop :=
  ∀ pack ∈ app.packet e, pack.checkFlag = false → app.Inert pack

/-- An answer to the registration that is handled has a wrong checksum. -/
def RegCorrupted (app : App) (e : Event) : Prop :=
  ∀ pack ∈ app.packet e, pack.cmdSerial = 0x81 → pack.checkFlag = false

instance (app : App) (e : Event) : Decidable (app.CorruptOk e) :=
  inferInstanceAs (Decidable (∀ _ ∈ _, _ → _))

instance (app : App) (e : Event) : Decidable (app.RegCorrupted e) :=
  inferInstanceAs (Decidable (∀ _ ∈ _, _ → _))

/-- A corrupted packet that is inert is handled without consequences. -/
theorem unchanged_step {app' : App} {e : Event} (hok : app.CorruptOk e) (hs : app.step e = some app')
    (hpack : app.packet e = some pack) (hcheck : pack.checkFlag = false) :
    Unchanged app app' ∧ .connectToHost .b ∉ app.effects e := by
  have hinert : app.Inert pack := hok pack hpack hcheck
  unfold packet at hpack
  split at hpack
  · next sock array =>
    simp only [step, Option.some.injEq] at hs
    subst hs
    rcases readyRead_cases app sock array with ⟨hnone, -⟩ | ⟨pack', rest, hpack', hread⟩
    · cases hnone.symm.trans hpack
    · cases hpack'.symm.trans hpack
      have hnet : (app.net.setBuff sock rest).regResult = app.net.regResult := by
        cases sock <;> rfl
      rw [effects, hread]
      refine ⟨unchanged_dispatch hnet hcheck hinert, fun hmem => ?_⟩
      obtain ⟨hcmd, hreg⟩ := registers_of_mem hmem rfl
      exact hreg (hnet.trans (hinert.regdev hcmd))
  · cases hpack

/-- A terminal that is not registered stays so, if every answer to the registration has a wrong
checksum and corrupted packets are inert. -/
theorem unregistered_step {app' : App} {e : Event} (h : app.net.regResult ≠ .regOk)
    (hok : app.CorruptOk e) (hcorr : app.RegCorrupted e) (hs : app.step e = some app') :
    app'.net.regResult ≠ .regOk ∧ ∀ eff ∈ app.effects e, registers eff = false := by
  cases e with
  | net e =>
    cases hs
    rw [net_handle, effects]
    cases e with
    | readyRead sock array =>
      rcases readyRead_cases app sock array with ⟨-, buff, hread⟩ | ⟨pack, rest, hpack, hread⟩
      · rw [hread]
        refine ⟨?_, by simp⟩
        cases sock <;> exact h
      · -- an answer to the registration would have to be corrupted, and inert only if registered
        have hcmd : pack.cmdSerial ≠ 0x81 := fun hcmd =>
          h ((hok pack hpack (hcorr pack hpack hcmd)).regdev hcmd)
        rw [hread]
        refine ⟨?_, fun eff hmem => ?_⟩
        · rw [fst_dispatch hcmd]
          cases sock <;> exact h
        · by_contra hreg
          exact hcmd (registers_of_mem hmem (by simpa using hreg)).1
    | _ => exact regResult_onEvent (by simp) h
  | tick =>
    cases hs
    refine ⟨?_, by simp [effects]⟩
    show (List.foldl Net.addRequestA app.net _).regResult ≠ .regOk
    rw [foldl_frame Net.regResult (fun _ _ => by rfl)]
    exact h
  | timeOut1 =>
    obtain ⟨r, -, rfl⟩ := Option.map_eq_some_iff.mp hs
    exact ⟨h, by simp [effects]⟩
  | timeOut2 =>
    obtain ⟨r, -, rfl⟩ := Option.map_eq_some_iff.mp hs
    exact ⟨h, by simp [effects]⟩
  | shop a =>
    simp only [step] at hs
    split at hs
    · obtain ⟨shop, -, rfl⟩ := Option.map_eq_some_iff.mp hs
      exact ⟨h, by simp [effects]⟩
    · cases hs
  | note type =>
    cases hs
    exact ⟨h, by simp [effects]⟩

/-- **Corrupted packets have no consequences.** Take any run in which every packet with a wrong
checksum is inert when it is handled. Such a packet leaves the result of the registration, the
orders, the records waiting for upload and the downloads as they were, and does not connect B. And if
all answers to the registration in the run are corrupted, the terminal is not registered. -/
theorem unchanged_of_meets (stored : DB) (cache : AutoTable CacheFile.id)
    (badCfg : Int32 → List QString) (acts : List Event) (e : Event) (s s' : App)
    (hok : Meets step CorruptOk (init stored cache badCfg) (acts ++ [e]))
    (hrun : run step (init stored cache badCfg) acts = some s) (hs : s.step e = some s') :
    (∀ pack, s.packet e = some pack → pack.checkFlag = false →
      Unchanged s s' ∧ .connectToHost .b ∉ s.effects e) ∧
    (Meets step RegCorrupted (init stored cache badCfg) (acts ++ [e]) →
      s'.net.regResult ≠ .regOk ∧
        ∀ time result, .emit (.signalReg true time result) ∉ s.effects e) := by
  obtain ⟨-, hlast⟩ := hok.append hrun
  refine ⟨fun pack hpack hcheck => unchanged_step hlast.head hs hpack hcheck, fun hcorr => ?_⟩
  obtain ⟨hboth, hboth'⟩ := (hok.and hcorr).append hrun
  have hreg : s.net.regResult ≠ .regOk := by
    refine @run_invariant _ _ _ _ (fun app : App => app.net.regResult ≠ .regOk) ?_ _ _ _ ?_ hboth hrun
    · intro app e app' h hok hs
      exact (unregistered_step h hok.1 hok.2 hs).1
    · intro hinit
      cases hinit
  obtain ⟨hreg', heffects⟩ := unregistered_step hreg hboth'.head.1 hboth'.head.2 hs
  refine ⟨hreg', fun time result hmem => ?_⟩
  cases heffects _ hmem

/-- The frame of a packet whose last byte was changed on the way. -/
def corrupted (pack : MESPack) : QByteArray :=
  pack.toByteArray.dropLast ++ [pack.toByteArray.getLastD 0 + 1]

/-- A registered terminal that waits for the answer to a note about defects gets a corrupted answer
to its registration, and goes on as before. -/
theorem unchanged_of_meets_second_registration :
    let e : Event := .net (.readyRead .a (corrupted { cmdSerial := 0x81, body := List.replicate 87 0 }))
    ∃ s s', run step (init {} AutoTable.empty fun _ => []) defectSent = some s ∧ s.step e = some s' ∧
      (∃ pack, s.packet e = some pack ∧ pack.checkFlag = false) ∧ s.net.regResult = .regOk ∧
      Unchanged s s' ∧ .connectToHost .b ∉ s.effects e := by
  intro e
  have hend : (run step (init {} AutoTable.empty fun _ => []) defectSent).any (fun s =>
      s.net.regResult = .regOk ∧ (s.step e).isSome = true ∧
        (s.packet e).any (fun pack => pack.checkFlag = false) = true) = true := by
    decide +kernel
  obtain ⟨s, hrun, hend⟩ := (Option.any_eq_true _ _).mp hend
  obtain ⟨hreg, hsome, hpack⟩ := of_decide_eq_true hend
  obtain ⟨s', hs⟩ := Option.isSome_iff_exists.mp hsome
  obtain ⟨pack, hpack, hcheck⟩ := (Option.any_eq_true _ _).mp hpack
  have hcheck := of_decide_eq_true hcheck
  exact ⟨s, s', hrun, hs, ⟨pack, hpack, hcheck⟩, hreg,
    (unchanged_of_meets _ _ _ defectSent e s s' (by decide +kernel) hrun hs).1 pack hpack hcheck⟩

/-- A corrupted answer registers the terminal and connects B, though no other answer came. -/
theorem corrupted_registers :
    (¬ ∀ (stored : DB) (cache : AutoTable CacheFile.id) (badCfg : Int32 → List QString)
      (acts : List Event) (e : Event) (s s' : App),
      run step (init stored cache badCfg) acts = some s → s.step e = some s' →
        ∀ pack, s.packet e = some pack → pack.checkFlag = false →
          Unchanged s s' ∧ .connectToHost .b ∉ s.effects e) ∧
    ¬ ∀ (stored : DB) (cache : AutoTable CacheFile.id) (badCfg : Int32 → List QString)
      (acts : List Event) (e : Event) (s s' : App),
      run step (init stored cache badCfg) acts = some s → s.step e = some s' →
        Meets step RegCorrupted (init stored cache badCfg) (acts ++ [e]) →
          s'.net.regResult ≠ .regOk ∧
            ∀ time result, .emit (.signalReg true time result) ∉ s.effects e := by
  let acts : List Event := [.net .start, .net (.connected .a)]
  let e : Event := .net (.readyRead .a (corrupted { cmdSerial := 0x81, body := List.replicate 87 0 }))
  have hend : (run step (init {} AutoTable.empty fun _ => []) acts).any (fun s =>
      s.net.regResult = .non ∧ (s.packet e).any (fun pack => pack.checkFlag = false) = true ∧
        (s.step e).any (fun s' => s'.net.regResult = .regOk) = true) = true := by
    decide +kernel
  obtain ⟨s, hrun, hend⟩ := (Option.any_eq_true _ _).mp hend
  obtain ⟨hnon, hpack, hnext⟩ := of_decide_eq_true hend
  obtain ⟨pack, hpack, hcheck⟩ := (Option.any_eq_true _ _).mp hpack
  obtain ⟨s', hs, hreg⟩ := (Option.any_eq_true _ _).mp hnext
  have hreg := of_decide_eq_true hreg
  constructor
  · intro h
    have hsame := (h _ _ _ acts e s s' hrun hs pack hpack (of_decide_eq_true hcheck)).1.regResult
    rw [hreg, hnon] at hsame
    cases hsame
  · intro h
    exact (h _ _ _ acts e s s' hrun hs (by decide +kernel)).1 hreg

end App

end ProgrammingPath.Mes
