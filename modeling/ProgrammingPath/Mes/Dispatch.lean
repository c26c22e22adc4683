import ProgrammingPath.Mes.App
import ProgrammingPath.Mes.Notes

/-!
# A command has its own handler

`parseReadBuff` chooses the handler by the command byte, and each handler emits signals of its own.
In two places this is not so. The case of `0x17 + 0x80` has no `break` and runs on into the case of
`0xD0`; and the handler of the short `0xD0`, the answer to a sync signal, emits the signal by which
a defect upload is acknowledged.

`isolated_and_acknowledged` says that these are the only two places, and what follows for the
uploads: in any run without such frames, a note about defects leaves `tb_Notebook` only when an
answer to a defect upload is handled.
-/

namespace ProgrammingPath.Mes

open ProgrammingPath.Qt ProgrammingPath.Lib

namespace Net

/-! ## One frame -/

/-- The handler belongs to the command. A short `0xD0` answers a sync signal, a long one dispatches
an order. -/
def belongs (cmd : UInt8) : Handler → Bool
  | .regdev => cmd == 0x81
  | .produce => cmd == 0x90
  | .icCard => cmd == 0x91
  | .defectiveInfo => cmd == 0x93
  | .adjMachine => cmd == 0x94
  | .other => cmd == 0x95
  | .qualityRegulate => cmd == 0x96
  | .pda => cmd == 0x97
  | .fileDown => cmd == 0xC0 || cmd == 0xC1
  | .wifiSignal | .order => cmd == 0xD0
  | .controlDev => cmd == 0xD7
  | .mail => cmd == 0xD8

/-- The signal belongs to the command. -/
def own (cmd : UInt8) : Signal → Bool
  | .signalReg _ _ _ => cmd == 0x81
  | .produce _ _ => cmd == 0x90
  | .icCard _ _ => cmd == 0x91
  | .defectiveInfo _ => cmd == 0x93
  | .adjMachine _ => cmd == 0x94
  | .other _ => cmd == 0x95
  | .qualityRegulate _ => cmd == 0x96
  | .pda _ => cmd == 0x97
  | .fileDown _ => cmd == 0xC0
  | .fileDownStream _ => cmd == 0xC1
  | .wifiSignal _ => cmd == 0xD0
  | .order _ => cmd == 0xD0
  | .controlDev _ => cmd == 0xD7
  | .mail _ => cmd == 0xD8
  | .closeA | .closeB | .connectBSucess => false

/-- Handling the packet calls only handlers, and emits only signals, of its command. -/
def Isolated (db : DB) (net : Net) (sock : Sock) (pack : MESPack) : Prop :=
  (∀ k ∈ handlers pack, belongs pack.cmdSerial k = true) ∧
    ∀ signal, Effect.emit signal ∈ (net.dispatch db sock pack).2 → own pack.cmdSerial signal = true

/-- The packet is none of the two kinds that go astray. -/
def Straight (pack : MESPack) : Prop :=
  pack.cmdSerial ≠ 0x97 ∧ ¬ (pack.cmdSerial = 0xD0 ∧ pack.body.length < 5)

instance (pack : MESPack) : Decidable (Straight pack) := inferInstanceAs (Decidable (_ ∧ _))

variable {db : DB} {net : Net} {sock : Sock} {pack : MESPack}

/-- What the handlers of a list do was done by one of them. -/
theorem mem_callAll {hs : List Handler} {e : Effect} (h : e ∈ (callAll db sock pack net hs).2) :
    ∃ net', ∃ k ∈ hs, e ∈ (call db net' sock pack k).2 := by
  induction hs generalizing net with
  | nil => simp [callAll] at h
  | cons k hs ih =>
    rcases List.mem_append.mp h with h | h
    · exact ⟨net, k, by simp, h⟩
    · obtain ⟨net', k', hk', he⟩ := ih h
      exact ⟨net', k', by simp [hk'], he⟩

/-- A command with one handler. -/
theorem dispatch_of_handlers {k : Handler} (h : handlers pack = [k]) :
    net.dispatch db sock pack = call db net sock pack k := by
  rw [dispatch, h, callAll, callAll, List.append_nil]

/-- The commands that have a handler. -/
def commands : List UInt8 :=
  [0x81, 0x90, 0x91, 0x93, 0x94, 0x95, 0x96, 0x97, 0xC0, 0xC1, 0xD0, 0xD7, 0xD8]

/-- The default case of the switch. -/
theorem handlers_of_not_mem (h : pack.cmdSerial ∉ commands) : handlers pack = [] := by
  simp only [commands, List.mem_cons, List.not_mem_nil, or_false, not_or, ← UInt8.toNat_inj] at h
  unfold handlers
  dsimp only
  split <;> simp_all

/-- A packet that does not go astray goes to the one handler of its command. -/
theorem belongs_of_straight (h : Straight pack) :
    ∀ k ∈ handlers pack, belongs pack.cmdSerial k = true ∧ k ≠ .wifiSignal := by
  obtain ⟨hpda, hshort⟩ := h
  by_cases hcmd : pack.cmdSerial ∈ commands
  · simp only [commands, List.mem_cons, List.not_mem_nil, or_false] at hcmd
    rcases hcmd with hcmd | hcmd | hcmd | hcmd | hcmd | hcmd | hcmd | hcmd | hcmd | hcmd | hcmd |
      hcmd | hcmd <;> simp_all [handlers, belongs]
    -- the command `0xD0` is left: the packet is long
    rw [if_neg (Nat.not_lt.mpr hshort)]
    simp
  · simp [handlers_of_not_mem hcmd]

/-- A handler that belongs to the command emits signals that belong to it, unless it is the one
for sync signals. -/
theorem own_of_call {k : Handler} {signal : Signal} (hk : belongs pack.cmdSerial k = true)
    (hwifi : k ≠ .wifiSignal) (h : .emit signal ∈ (call db net sock pack k).2) :
    own pack.cmdSerial signal = true := by
  cases k with
  | regdev =>
    simp only [call, protocolRegdevParse] at h
    grind [belongs, own]
  | fileDown =>
    simp only [call, protocolFileDownParse] at h
    -- which of the two signals it is depends on the decoder that accepts the command
    unfold MESFileDownResponse.decode MESFileDownStreamResponse.decode at h
    grind [belongs, own]
  | wifiSignal => exact absurd rfl hwifi
  | produce => simp_all [call, protocolProduceParse, belongs, own]
  | icCard => simp_all [call, protocolIcCardParse, belongs, own]
  | defectiveInfo => simp_all [call, protocolDefectiveInfoParse, belongs, own]
  | adjMachine =>
    simp only [call, protocolAdjMachineParse] at h
    grind [belongs, own]
  | other =>
    simp only [call, protocolOtherParse] at h
    grind [belongs, own]
  | qualityRegulate => simp_all [call, protocolQualityRegulateParse, belongs, own]
  | pda => simp_all [call, protocolPdaParse]
  | order =>
    simp only [call, protocolOrderParse] at h
    grind [belongs, own]
  | controlDev =>
    simp only [call, protocolControlDevParse] at h
    grind [belongs, own]
  | mail =>
    simp only [call, protocolMailParse] at h
    grind [belongs, own]

/-- Each packet but those two kinds is handled by its own command's handler, with its signals. -/
theorem isolated_iff_straight : Isolated db net sock pack ↔ Straight pack := by
  constructor
  · rintro ⟨hhandlers, hsignals⟩
    refine ⟨fun hpda => ?_, fun ⟨hd0, hshort⟩ => ?_⟩
    · -- the handler of `0xD0` is called as well
      have hmem : (if pack.body.length < 5 then Handler.wifiSignal else .order) ∈ handlers pack := by
        by_cases hshort : pack.body.length < 5 <;> simp [handlers, hpda, hshort]
      have := hhandlers _ hmem
      rw [hpda] at this
      split at this <;> cases this
    · have hmem : Effect.emit (.defectiveInfo (fdatResultFormatAppendix (pack.body.getD 0 0))) ∈
          (net.dispatch db sock pack).2 := by
        simp [dispatch, handlers, hd0, hshort, callAll, call, protocolWifiSignalParse]
      have := hsignals _ hmem
      rw [hd0] at this
      cases this
  · intro h
    refine ⟨fun k hk => (belongs_of_straight h k hk).1, fun signal hsignal => ?_⟩
    obtain ⟨net', k, hk, hemit⟩ := mem_callAll hsignal
    obtain ⟨hbelongs, hwifi⟩ := belongs_of_straight h k hk
    exact own_of_call hbelongs hwifi hemit

end Net

/-! ## What the task of notes waits for -/

namespace App

variable {app app' : App}

/-- A note that is stored under the number of the one the task waits for is that note. -/
def Held (app : App) : Prop :=
  ∀ task, app.tasks.task2 = some task → task.connected = true →
    task.notebook.id ≤ app.shop.db.notebook.seq ∧
      ∀ r ∈ app.shop.db.notebook.rows, r.id = task.notebook.id → r = task.notebook

/-- No note about defects is gone. -/
def DefectsKept (app app' : App) : Prop :=
  ∀ r ∈ app.shop.db.notebook.rows, r.type = .defectiveInfo → r ∈ app'.shop.db.notebook.rows

theorem DefectsKept.trans {app'' : App} (h₁ : DefectsKept app app') (h₂ : DefectsKept app' app'') :
    DefectsKept app app'' := fun r hr htype => h₂ r (h₁ r hr htype) htype

/-- The tasks are as they were, and notes were only added. -/
structure Grows (app app' : App) : Prop where
  tasks : app'.tasks = app.tasks
  notes : app.shop.db.notebook.Grown app'.shop.db.notebook

namespace Grows

theorem refl (app : App) : Grows app app := ⟨rfl, .refl _⟩

theorem trans {app'' : App} (h₁ : Grows app app') (h₂ : Grows app' app'') : Grows app app'' :=
  ⟨h₂.tasks.trans h₁.tasks, h₁.notes.trans h₂.notes⟩

theorem foldl {α : Type} {f : App → α → App} (hf : ∀ app a, Grows app (f app a)) (l : List α) :
    Grows app (l.foldl f app) := by
  induction l generalizing app with
  | nil => exact refl app
  | cons a l ih => exact (hf app a).trans ih

theorem kept (h : Grows app app') : DefectsKept app app' := fun r hr _ => h.notes.keep r hr

theorem held (h : Grows app app') (hheld : Held app) : Held app' := by
  intro task htask hconn
  rw [h.tasks] at htask
  obtain ⟨hle, heq⟩ := hheld task htask hconn
  refine ⟨Nat.le_trans hle h.notes.seq, fun r hr hid => ?_⟩
  rcases h.notes.new r hr with hr | hlt
  · exact heq r hr hid
  · omega

theorem setShop {shop : Shop} (h : app.shop.db.notebook.Grown shop.db.notebook) :
    Grows app { app with shop := shop } := ⟨rfl, h⟩

theorem onDown (r : Downloads × List DownEffect) : Grows app (app.onDown r) := by
  have hstep : ∀ (app : App) (e : DownEffect), Grows app (app.onDownEffect e) := by
    intro app e
    cases e with
    | request message => exact ⟨rfl, .refl _⟩
    | install name fileSize data => exact ⟨rfl, DB.grown_insertNotebook _⟩
  have hfold := @foldl { app with downs := r.1 } _ _ hstep r.2
  exact ⟨hfold.tasks, hfold.notes⟩

theorem slotConnectBSucess : Grows app app.slotConnectBSucess := foldl (fun _ _ => onDown _) _

theorem slotProtocolOrder (request : MESOrderRequest) : Grows app (app.slotProtocolOrder request) :=
  ⟨rfl, Shop.grown_onOrderSend _ _⟩

theorem slotProtocolControlDev (request : MESControlRequest) :
    Grows app (app.slotProtocolControlDev request) := by
  have hcontrol : Grows app (app.control request) := by
    unfold control
    split
    · exact onDown _
    · exact ⟨rfl, Shop.grown_adjustOrders _⟩
    · exact ⟨rfl, Shop.grown_onOrderReplace⟩
    · exact ⟨rfl, Shop.grown_onOrderDelete _⟩
    · exact refl app
  exact ⟨hcontrol.tasks, hcontrol.notes⟩

end Grows

/-- A signal either goes to the tasks, or removes no note. -/
theorem onSignal_cases (signal : Signal) :
    Grows app (app.onSignal signal) ∨
      (app.onSignal signal).tasks = (app.tasks.onSignal app.shop.db signal).1 ∧
        (app.onSignal signal).shop.db = (app.tasks.onSignal app.shop.db signal).2 := by
  cases signal with
  | order request => exact .inl (.slotProtocolOrder request)
  | controlDev request => exact .inl (.slotProtocolControlDev request)
  | connectBSucess => exact .inl .slotConnectBSucess
  | fileDown response => exact .inl (.onDown _)
  | fileDownStream response => exact .inl (.onDown _)
  | _ => exact .inr ⟨rfl, rfl⟩

theorem Held.onSignal (h : Held app) (signal : Signal) : Held (app.onSignal signal) := by
  rcases @onSignal_cases app signal with hgrows | ⟨htasks, hdb⟩
  · exact hgrows.held h
  · intro task' htask' hconn
    rw [htasks] at htask'
    obtain ⟨task, htask, hnote, hconn'⟩ := Tasks.sameNote_onSignal _ _ _ task' htask'
    obtain ⟨hle, heq⟩ := h task htask (hconn' ▸ hconn)
    rw [hnote, hdb]
    -- rows may be gone, none is new
    rcases app.tasks.notebook_onSignal app.shop.db signal with hsame | ⟨_, -, -, hdel⟩
    · rw [hsame]
      exact ⟨hle, heq⟩
    · rw [hdel]
      exact ⟨hle, fun r hr => heq r (AutoTable.mem_delete.mp hr).1⟩

/-- Only the answer to a defect upload removes a note about defects. -/
theorem DefectsKept.onSignal (h : Held app) {signal : Signal}
    (hs : ∀ result, signal = .defectiveInfo result → result = .failClose) :
    DefectsKept app (app.onSignal signal) := by
  rcases @onSignal_cases app signal with hgrows | ⟨-, hdb⟩
  · exact hgrows.kept
  · intro r hr htype
    rw [hdb]
    rcases app.tasks.notebook_onSignal app.shop.db signal with hsame | ⟨task, htask, hacc, hdel⟩
    · rwa [hsame]
    · rw [hdel]
      refine AutoTable.mem_delete.mpr ⟨hr, ?_⟩
      by_contra hid
      unfold TaskNotebook.accepts at hacc
      obtain ⟨hconn, hkind⟩ := (Bool.and_eq_true _ _).mp hacc
      -- the row is the note the task waits for, so the task waits for an answer about defects
      have hrow : r = task.notebook := (h task htask hconn).2 r hr (by simpa using hid)
      rw [← hrow, htype] at hkind
      cases signal <;> simp_all

/-! ## Steps -/

theorem Held.onEffect (h : Held app) (e : Effect) : Held (app.onEffect e) := by
  cases e with
  | emit signal => exact h.onSignal signal
  | write sock message => exact h
  | connectToHost sock => exact h
  | close sock => exact h

theorem DefectsKept.onEffect (h : Held app) {e : Effect}
    (he : ∀ result, e = .emit (.defectiveInfo result) → result = .failClose) :
    DefectsKept app (app.onEffect e) := by
  cases e with
  | emit signal =>
    apply DefectsKept.onSignal h
    intro result hsignal
    exact he result (by rw [hsignal])
  | write sock message => exact fun r hr _ => hr
  | connectToHost sock => exact fun r hr _ => hr
  | close sock => exact fun r hr _ => hr

theorem Held.foldl (h : Held app) (l : List Effect) : Held (l.foldl App.onEffect app) := by
  induction l generalizing app with
  | nil => exact h
  | cons e l ih => exact ih (h.onEffect e)

theorem DefectsKept.foldl (h : Held app) {l : List Effect}
    (hl : ∀ result, .emit (.defectiveInfo result) ∈ l → result = .failClose) :
    DefectsKept app (l.foldl App.onEffect app) := by
  induction l generalizing app with
  | nil => exact fun r hr _ => hr
  | cons e l ih =>
    have hhead : DefectsKept app (app.onEffect e) := by
      apply DefectsKept.onEffect h
      rintro result rfl
      exact hl result (by simp)
    exact hhead.trans (ih (h.onEffect e) (fun result hmem => hl result (by simp [hmem])))

/-- The notes are as they were, and the task, if it waits, waits for the note it waited for. -/
theorem Held.congr (h : Held app) (hnotes : app'.shop.db.notebook = app.shop.db.notebook)
    (htask : app.tasks.SameNote app'.tasks) : Held app' := by
  intro task' htask' hconn
  obtain ⟨task, htask2, hnote, hconn'⟩ := htask task' htask'
  rw [hnotes, hnote]
  exact h task htask2 (hconn' ▸ hconn)

theorem Held.step {e : Event} (h : Held app) (hs : app.step e = some app') : Held app' := by
  cases e with
  | net e =>
    cases hs
    exact @Held.foldl { app with net := (app.net.onEvent app.shop.db e).1 } h _
  | tick =>
    cases hs
    intro task' htask' hconn
    -- a task just started waits for a note of the table
    rcases Tasks.task2_runTask htask' with hold | hnew
    · show _ ≤ (app.tasks.runTask app.shop.db).2.1.notebook.seq ∧
        ∀ r ∈ (app.tasks.runTask app.shop.db).2.1.notebook.rows, _
      rw [(Tasks.runTask_db app.tasks app.shop.db).1]
      exact h task' hold hconn
    · show _ ≤ (app.tasks.runTask app.shop.db).2.1.notebook.seq ∧
        ∀ r ∈ (app.tasks.runTask app.shop.db).2.1.notebook.rows, _
      rw [(Tasks.runTask_db app.tasks app.shop.db).1]
      exact ⟨app.shop.db.notebook.le_seq _ (hnew hconn),
        fun r hr hid => AutoTable.eq_of_key_eq hr (hnew hconn) hid⟩
  | timeOut1 =>
    obtain ⟨r, hr, rfl⟩ := Option.map_eq_some_iff.mp hs
    exact h.congr (Tasks.timeOut_db (.inl hr)).1 (Tasks.sameNote_timeOut (.inl hr))
  | timeOut2 =>
    obtain ⟨r, hr, rfl⟩ := Option.map_eq_some_iff.mp hs
    exact h.congr (Tasks.timeOut_db (.inr hr)).1 (Tasks.sameNote_timeOut (.inr hr))
  | shop a =>
    simp only [App.step] at hs
    split at hs
    · obtain ⟨shop, hshop, rfl⟩ := Option.map_eq_some_iff.mp hs
      exact (Grows.setShop (Shop.grown_step hshop)).held h
    · cases hs
  | note type =>
    cases hs
    exact (Grows.setShop (DB.grown_insertNotebook type)).held h

/-- Without an answer to a defect upload, no note about defects goes. -/
theorem DefectsKept.step {e : Event} (h : Held app) (hs : app.step e = some app')
    (hno : ∀ result, .emit (.defectiveInfo result) ∈ app.effects e → result = .failClose) :
    DefectsKept app app' := by
  cases e with
  | net e =>
    cases hs
    exact @DefectsKept.foldl { app with net := (app.net.onEvent app.shop.db e).1 } h _ hno
  | tick =>
    cases hs
    intro r hr _
    show r ∈ (app.tasks.runTask app.shop.db).2.1.notebook.rows
    rwa [(Tasks.runTask_db app.tasks app.shop.db).1]
  | timeOut1 =>
    obtain ⟨r, hr, rfl⟩ := Option.map_eq_some_iff.mp hs
    intro note hnote _
    rw [(Tasks.timeOut_db (.inl hr)).1]
    exact hnote
  | timeOut2 =>
    obtain ⟨r, hr, rfl⟩ := Option.map_eq_some_iff.mp hs
    intro note hnote _
    rw [(Tasks.timeOut_db (.inr hr)).1]
    exact hnote
  | shop a =>
    simp only [App.step] at hs
    split at hs
    · obtain ⟨shop, hshop, rfl⟩ := Option.map_eq_some_iff.mp hs
      exact (Grows.setShop (Shop.grown_step hshop)).kept
    · cases hs
  | note type =>
    cases hs
    exact (Grows.setShop (DB.grown_insertNotebook type)).kept

/-- The condition on a step: a packet that is handled does not go astray. -/
def FrameOk (app : App) (e : Event) : Prop := ∀ pack ∈ app.packet e, Net.Straight pack

instance (app : App) (e : Event) : Decidable (app.FrameOk e) :=
  inferInstanceAs (Decidable (∀ _ ∈ _, _))

/-- A read completes no frame and does nothing, or does what the packet it completes does. -/
theorem readyRead_cases (app : App) (sock : Sock) (array : QByteArray) :
    (app.packet (.net (.readyRead sock array)) = none ∧
      ∃ buff, app.net.onEvent app.shop.db (.readyRead sock array) = (app.net.setBuff sock buff, [])) ∨
    ∃ pack rest, app.packet (.net (.readyRead sock array)) = some pack ∧
      app.net.onEvent app.shop.db (.readyRead sock array) =
        (app.net.setBuff sock rest).dispatch app.shop.db sock pack := by
  cases hcut : Net.cutFrame (app.net.buff sock ++ array) with
  | none =>
    left
    simp [packet, Net.onEvent, Net.slotReadyRead, hcut]
  | some c =>
    right
    refine ⟨MESPack.parse c.1, c.2, ?_, ?_⟩
    · simp [packet, Net.slotReadyRead, hcut]
    · simp [Net.onEvent, Net.slotReadyRead, hcut]

/-- Where the signal for defect uploads comes from. -/
theorem defectiveInfo_of_frameOk {e : Event} {result : FDATResult} (hok : app.FrameOk e)
    (h : .emit (.defectiveInfo result) ∈ app.effects e) :
    (e = .net (.closed .a) ∧ result = .failClose) ∨
      ∃ pack, app.packet e = some pack ∧ pack.cmdSerial = 0x93 := by
  cases e with
  | net e =>
    cases e with
    | readyRead sock array =>
      rcases readyRead_cases app sock array with ⟨-, buff, hread⟩ | ⟨pack, rest, hpack, hread⟩
      · simp [effects, hread] at h
      · rw [effects, hread] at h
        have hown := (Net.isolated_iff_straight.mpr (hok pack hpack)).2 _ h
        exact .inr ⟨pack, hpack, by simpa [Net.own] using hown⟩
    | closed sock =>
      cases sock with
      | a =>
        left
        simpa [effects, Net.onEvent, Net.slotClosedA] using h
      | b =>
        simp only [effects, Net.onEvent, Net.slotClosedB] at h
        split at h <;> simp at h
    | connected sock =>
      cases sock <;> simp [effects, Net.onEvent, Net.slotConnectedA, Net.slotConnectedB] at h
    | error sock err =>
      cases sock <;> cases err <;>
        simp only [effects, Net.onEvent, Net.slotErrorA, Net.slotErrorB] at h <;> grind
    | regTimeOut =>
      simp only [effects, Net.onEvent, Net.slotRegTimeOut] at h
      split at h <;> simp at h
    | startNextRequestA =>
      simp only [effects, Net.onEvent, Net.startNextRequestA] at h
      split at h <;> simp at h
    | start => simp [effects, Net.onEvent, Net.start, Net.close] at h
    | close => simp [effects, Net.onEvent, Net.close] at h
    | restart => simp [effects, Net.onEvent, Net.start, Net.close] at h
  | _ => simp [effects] at h

theorem held_init (db : DB) (cache : AutoTable CacheFile.id) (badCfg : Int32 → List QString) :
    Held (init db cache badCfg) := by
  intro task htask
  cases htask

/-- **A command has its own handler, and a defect upload its own answer.** A packet calls only
handlers and emits only signals of its command exactly when it is none of the two kinds that go
astray. In any run without such packets the signal for defect uploads is emitted only when
connection A is lost or an answer to a defect upload is handled, and a note about defects is removed
only by such an answer. -/
theorem isolated_and_acknowledged (db : DB) (net : Net) (sock : Sock) (pack : MESPack) :
    (Net.Isolated db net sock pack ↔ Net.Straight pack) ∧
      ∀ (stored : DB) (cache : AutoTable CacheFile.id) (badCfg : Int32 → List QString)
        (acts : List Event) (e : Event) (s s' : App),
        Meets step FrameOk (init stored cache badCfg) (acts ++ [e]) →
        run step (init stored cache badCfg) acts = some s → s.step e = some s' →
          (∀ result, .emit (.defectiveInfo result) ∈ s.effects e →
            e = .net (.closed .a) ∨ ∃ pack, s.packet e = some pack ∧ pack.cmdSerial = 0x93) ∧
          ∀ r ∈ s.shop.db.notebook.rows, r.type = .defectiveInfo →
            r ∉ s'.shop.db.notebook.rows →
              ∃ pack, s.packet e = some pack ∧ pack.cmdSerial = 0x93 := by
  refine ⟨Net.isolated_iff_straight, ?_⟩
  intro stored cache badCfg acts e s s' hok hrun hs
  obtain ⟨hacts, hlast⟩ := hok.append hrun
  have hheld : Held s :=
    run_invariant (fun _ _ _ h _ hs => h.step hs) (held_init stored cache badCfg) hacts hrun
  refine ⟨fun result hemit => ?_, fun r hr htype hgone => ?_⟩
  · rcases defectiveInfo_of_frameOk hlast.head hemit with ⟨he, -⟩ | hpack
    · exact .inl he
    · exact .inr hpack
  · -- without such an answer every signal for defect uploads says that the connection was lost
    by_contra hnone
    refine hgone (DefectsKept.step hheld hs ?_ r hr htype)
    intro result hemit
    rcases defectiveInfo_of_frameOk hlast.head hemit with ⟨-, hresult⟩ | hpack
    · exact hresult
    · exact absurd hpack hnone

/-- The beginning of the runs below: the terminal is registered, and waits for the answer to a note
about defects. -/
def defectSent : List Event :=
  [.net .start, .net (.connected .a),
    .net (.readyRead .a ({ cmdSerial := 0x81, body := List.replicate 87 0 } : MESPack).toByteArray),
    .note .defectiveInfo, .tick]

/-- The answer arrives, and the note goes. -/
theorem isolated_and_acknowledged_answer :
    ∃ s s', run step (init {} AutoTable.empty fun _ => []) defectSent = some s ∧
      s.step (.net (.readyRead .a ({ cmdSerial := 0x93, body := [0] } : MESPack).toByteArray)) =
        some s' ∧
      s.shop.db.notebook.rows = [{ id := 1, type := .defectiveInfo }] ∧
      s'.shop.db.notebook.rows = [] ∧
      ∃ pack, s.packet (.net (.readyRead .a
        ({ cmdSerial := 0x93, body := [0] } : MESPack).toByteArray)) = some pack ∧
        pack.cmdSerial = 0x93 := by
  let e : Event := .net (.readyRead .a ({ cmdSerial := 0x93, body := [0] } : MESPack).toByteArray)
  have hend : (run step (init {} AutoTable.empty fun _ => []) defectSent).any (fun s =>
      s.shop.db.notebook.rows = [{ id := 1, type := .defectiveInfo }] ∧
        (s.step e).any (fun s' => s'.shop.db.notebook.rows = []) = true) = true := by
    decide +kernel
  obtain ⟨s, hrun, hrows⟩ := (Option.any_eq_true _ _).mp hend
  obtain ⟨hrows, hnext⟩ := of_decide_eq_true hrows
  obtain ⟨s', hs, hrows'⟩ := (Option.any_eq_true _ _).mp hnext
  have hrows' := of_decide_eq_true hrows'
  exact ⟨s, s', hrun, hs, hrows, hrows',
    ((isolated_and_acknowledged {} {} .a {}).2 _ _ _ defectSent e s s' (by decide +kernel) hrun hs).2
      { id := 1, type := .defectiveInfo } (by simp [hrows]) rfl (by simp [hrows'])⟩

/-- The answer to a sync signal emits the signal for defect uploads, and arriving instead of the
answer it removes the note all the same. -/
theorem sync_answer_acknowledges :
    (¬ ∀ db net sock pack, Net.Isolated db net sock pack) ∧
      ¬ ∀ (stored : DB) (cache : AutoTable CacheFile.id) (badCfg : Int32 → List QString)
        (acts : List Event) (e : Event) (s s' : App),
        run step (init stored cache badCfg) acts = some s → s.step e = some s' →
          ∀ r ∈ s.shop.db.notebook.rows, r.type = .defectiveInfo →
            r ∉ s'.shop.db.notebook.rows →
              ∃ pack, s.packet e = some pack ∧ pack.cmdSerial = 0x93 := by
  constructor
  · intro h
    have := Net.isolated_iff_straight.mp (h {} {} .a { cmdSerial := 0xD0, body := [0] })
    revert this
    decide
  · intro h
    let e : Event := .net (.readyRead .a ({ cmdSerial := 0xD0, body := [0] } : MESPack).toByteArray)
    have hend : (run step (init {} AutoTable.empty fun _ => []) defectSent).any (fun s =>
        s.shop.db.notebook.rows = [{ id := 1, type := .defectiveInfo }] ∧
          (s.packet e).all (fun pack => pack.cmdSerial = 0xD0) = true ∧
          (s.step e).any (fun s' => s'.shop.db.notebook.rows = []) = true) = true := by
      decide +kernel
    obtain ⟨s, hrun, hrows⟩ := (Option.any_eq_true _ _).mp hend
    obtain ⟨hrows, hcmd, hnext⟩ := of_decide_eq_true hrows
    obtain ⟨s', hs, hrows'⟩ := (Option.any_eq_true _ _).mp hnext
    have hrows' := of_decide_eq_true hrows'
    obtain ⟨pack, hpack, hc⟩ := h _ _ _ defectSent e s s' hrun hs { id := 1, type := .defectiveInfo }
      (by simp [hrows]) rfl (by simp [hrows'])
    rw [hpack, Option.all_some, hc] at hcmd
    exact absurd hcmd (by decide)

end App

end ProgrammingPath.Mes
