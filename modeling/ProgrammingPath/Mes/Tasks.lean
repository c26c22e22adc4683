import ProgrammingPath.Mes.Net

/-!
# Uploading (`NetCSCP/CSCPNotebookTask.h`, `NetCSCP/CSCPNotebookTask.cpp`)

The records waiting for upload are the rows of `tb_Producted` and `tb_Notebook`. Every half second
`runTask` looks after two tasks, one for each table. A task takes the oldest record, sends it, and
waits for the answer of its kind; the answer carries no record number, so whatever answer of that
kind comes is taken for it. After two seconds without an answer the task gives up.

A task that has finished stays connected to the network until `runTask` deletes it.
-/

namespace ProgrammingPath.Mes

open ProgrammingPath.Qt ProgrammingPath.Lib

/-! ## Mould records -/

structure TaskProducted where
  producted : Producted := {}
  /-- the signal for answers is connected -/
  connected : Bool := false
  subimtFlag : Bool := false
  deriving DecidableEq, Repr

namespace TaskProducted

/-- `TaskProducted::requestFinished`. The backup is emptied when it holds more than `bakCount`
records. -/
def requestFinished (task : TaskProducted) (bakCount : Nat) (db : DB) (flag : Bool) :
    TaskProducted × DB :=
  let db :=
    if flag then (db.subimtBakProducted task.producted).removeProducted task.producted.id else db
  let db :=
    if db.productedBak.rows.length > bakCount then
      { db with productedBak := db.productedBak.delete (fun _ => true) }
    else db
  ({ task with subimtFlag := true }, db)

/-- `TaskProducted::start`, on a new task. -/
def start (bakCount : Nat) (db : DB) : TaskProducted × DB × List Message :=
  match db.producted.rows.head? with
  | some producted => ({ producted, connected := true }, db, [.produce producted])
  | none =>
    let r := ({} : TaskProducted).requestFinished bakCount db false
    (r.1, r.2, [])

/-- `TaskProducted::slot_protocol_produce`. -/
def slotProtocolProduce (task : TaskProducted) (bakCount : Nat) (db : DB) (_type : UInt8)
    (result : FDATResult) : TaskProducted × DB :=
  task.requestFinished bakCount db (result ≠ .failClose)

/-- The signals the task is connected to. -/
def onSignal (task : TaskProducted) (bakCount : Nat) (db : DB) : Signal → TaskProducted × DB
  | .produce type result =>
    if task.connected then task.slotProtocolProduce bakCount db type result else (task, db)
  | _ => (task, db)

/-- The signal ends the upload with success. -/
def accepts (task : TaskProducted) : Signal → Bool
  | .produce _ result => task.connected && result ≠ .failClose
  | _ => false

variable {task : TaskProducted} {bakCount : Nat} {db : DB} {signal : Signal}

theorem notebook_onSignal : (task.onSignal bakCount db signal).2.notebook = db.notebook := by
  unfold onSignal
  split
  · split
    · unfold slotProtocolProduce requestFinished
      grind [DB.subimtBakProducted, DB.removeProducted]
    · rfl
  · rfl

theorem order_onSignal : (task.onSignal bakCount db signal).2.order = db.order := by
  unfold onSignal
  split
  · split
    · unfold slotProtocolProduce requestFinished
      grind [DB.subimtBakProducted, DB.removeProducted]
    · rfl
  · rfl

theorem producted_onSignal : (task.onSignal bakCount db signal).2.producted =
    if task.accepts signal then db.producted.delete (fun r => r.id == task.producted.id)
    else db.producted := by
  unfold onSignal accepts
  split
  · split
    · unfold slotProtocolProduce requestFinished
      grind [DB.subimtBakProducted, DB.removeProducted]
    · next hoff => simp [hoff]
  · rfl

end TaskProducted

/-! ## Notes -/

structure TaskNotebook where
  notebook : Notebook := { type := .unknown }
  /-- the signal for answers to a note of this type is connected -/
  connected : Bool := false
  subimtFlag : Bool := false
  deriving DecidableEq, Repr

namespace TaskNotebook

/-- `TaskNotebook::requestFinished`. -/
def requestFinished (task : TaskNotebook) (db : DB) (flag : Bool) : TaskNotebook × DB :=
  ({ task with subimtFlag := true }, if flag then db.removeNotebook task.notebook.id else db)

/-- `TaskNotebook::start`, on a new task; `subimt` fails for a type it does not know. -/
def start (db : DB) : TaskNotebook × List Message :=
  match db.notebook.rows.head? with
  | some notebook =>
    if notebook.type = .unknown then ({ notebook, subimtFlag := true }, [])
    else ({ notebook, connected := true }, [.note notebook])
  | none => ({ subimtFlag := true }, [])

/-- What the slots for answers with a result do: anything but a lost connection is a success. -/
def slotResult (task : TaskNotebook) (db : DB) (result : FDATResult) : TaskNotebook × DB :=
  task.requestFinished db (result ≠ .failClose)

def slotProtocolIcCard (task : TaskNotebook) (db : DB) (_type : UInt8) (result : FDATResult) :
    TaskNotebook × DB := task.slotResult db result

def slotProtocolDefectiveInfo (task : TaskNotebook) (db : DB) (result : FDATResult) :
    TaskNotebook × DB := task.slotResult db result

def slotProtocolAdjMachine (task : TaskNotebook) (db : DB) (result : FDATResult) :
    TaskNotebook × DB := task.slotResult db result

def slotProtocolQualityRegulate (task : TaskNotebook) (db : DB) (result : FDATResult) :
    TaskNotebook × DB := task.slotResult db result

/-- `TaskNotebook::slot_protocol_other`; `dataType` is the one of the note that was sent. -/
def slotProtocolOther (task : TaskNotebook) (db : DB) (dataType : UInt8)
    (response : MESOtherResponse) : TaskNotebook × DB :=
  if response.result = .failClose then task.requestFinished db false
  else if dataType = response.dataType then task.requestFinished db true
  else (task, db)

/-- The signals the task is connected to: the one for the type of its note. -/
def onSignal (task : TaskNotebook) (db : DB) (signal : Signal) : TaskNotebook × DB :=
  if task.connected then
    match task.notebook.type, signal with
    | .brushCard, .icCard type result => task.slotProtocolIcCard db type result
    | .defectiveInfo, .defectiveInfo result => task.slotProtocolDefectiveInfo db result
    | .adjMachine, .adjMachine result => task.slotProtocolAdjMachine db result
    | .otherSetInfo dataType, .other response => task.slotProtocolOther db dataType response
    | .qualityRegulate, .qualityRegulate result => task.slotProtocolQualityRegulate db result
    | _, _ => (task, db)
  else (task, db)

/-- The signal ends the upload with success. -/
def accepts (task : TaskNotebook) (signal : Signal) : Bool :=
  task.connected &&
    match task.notebook.type, signal with
    | .brushCard, .icCard _ result => result ≠ .failClose
    | .defectiveInfo, .defectiveInfo result => result ≠ .failClose
    | .adjMachine, .adjMachine result => result ≠ .failClose
    | .otherSetInfo dataType, .other response =>
      response.result ≠ .failClose && dataType = response.dataType
    | .qualityRegulate, .qualityRegulate result => result ≠ .failClose
    | _, _ => false

theorem db_onSignal {task : TaskNotebook} {db : DB} {signal : Signal} :
    (task.onSignal db signal).2 =
      if task.accepts signal then db.removeNotebook task.notebook.id else db := by
  unfold onSignal accepts
  cases hconn : task.connected with
  | false => rfl
  | true =>
    simp only [if_true, Bool.true_and]
    split <;> simp [slotProtocolIcCard, slotProtocolDefectiveInfo, slotProtocolAdjMachine,
      slotProtocolQualityRegulate, slotProtocolOther, slotResult, requestFinished]
    grind

/-- A signal leaves the task its note. -/
theorem same_onSignal (task : TaskNotebook) (db : DB) (signal : Signal) :
    (task.onSignal db signal).1.notebook = task.notebook ∧
      (task.onSignal db signal).1.connected = task.connected := by
  unfold onSignal
  split
  · split
    all_goals
      simp only [slotProtocolIcCard, slotProtocolDefectiveInfo, slotProtocolAdjMachine,
        slotProtocolOther, slotProtocolQualityRegulate, slotResult, requestFinished]
      grind
  · exact ⟨rfl, rfl⟩

end TaskNotebook

/-! ## Both tasks -/

/-- `CSCPNotebookTask`. -/
structure Tasks where
  regeditOK : Bool := false
  task1 : Option TaskProducted := none
  task2 : Option TaskNotebook := none
  /-- `AppInfo::getTbProductedBakCount` -/
  bakCount : Nat := 2000
  deriving DecidableEq, Repr

namespace Tasks

/-- The first half of `runTask`: the task for mould records. -/
def runTask1 (tasks : Tasks) (db : DB) : Tasks × DB × List Message :=
  if db.producted.rows.length > 0 then
    match tasks.task1 with
    | none =>
      let r := TaskProducted.start tasks.bakCount db
      ({ tasks with task1 := some r.1 }, r.2.1, r.2.2)
    | some task => if task.subimtFlag then ({ tasks with task1 := none }, db, []) else (tasks, db, [])
  else (tasks, db, [])

/-- The second half of `runTask`: the task for notes. -/
def runTask2 (tasks : Tasks) (db : DB) : Tasks × List Message :=
  if db.notebook.rows.length > 0 then
    match tasks.task2 with
    | none =>
      let r := TaskNotebook.start db
      ({ tasks with task2 := some r.1 }, r.2)
    | some task => if task.subimtFlag then ({ tasks with task2 := none }, []) else (tasks, [])
  else (tasks, [])

/-- `CSCPNotebookTask::runTask`; the messages are requests for A. -/
def runTask (tasks : Tasks) (db : DB) : Tasks × DB × List Message :=
  if tasks.regeditOK then
    let (tasks, db, messages) := tasks.runTask1 db
    let (tasks, messages') := tasks.runTask2 db
    (tasks, db, messages ++ messages')
  else (tasks, db, [])

/-- The timer of the first task has run out; it runs while the task waits. -/
def timeOut1 (tasks : Tasks) (db : DB) : Option (Tasks × DB) :=
  match tasks.task1 with
  | some task =>
    if task.connected && !task.subimtFlag then
      let r := task.requestFinished tasks.bakCount db false
      some ({ tasks with task1 := some r.1 }, r.2)
    else none
  | none => none

/-- The timer of the second task has run out. -/
def timeOut2 (tasks : Tasks) (db : DB) : Option (Tasks × DB) :=
  match tasks.task2 with
  | some task =>
    if task.connected && !task.subimtFlag then
      let r := task.requestFinished db false
      some ({ tasks with task2 := some r.1 }, r.2)
    else none
  | none => none

/-- The task for mould records takes a signal. -/
def signal1 (tasks : Tasks) (db : DB) (signal : Signal) : Tasks × DB :=
  match tasks.task1 with
  | some task =>
    ({ tasks with task1 := some (task.onSignal tasks.bakCount db signal).1 },
      (task.onSignal tasks.bakCount db signal).2)
  | none => (tasks, db)

/-- The task for notes takes a signal. -/
def signal2 (tasks : Tasks) (db : DB) (signal : Signal) : Tasks × DB :=
  match tasks.task2 with
  | some task =>
    ({ tasks with task2 := some (task.onSignal db signal).1 }, (task.onSignal db signal).2)
  | none => (tasks, db)

/-- Everything `CSCPNotebookTask` and its tasks do on a signal, as far as uploads are concerned. -/
def onSignal (tasks : Tasks) (db : DB) : Signal → Tasks × DB
  | .signalReg flag _ _ => ({ tasks with regeditOK := flag }, db)
  | .closeA => ({ tasks with regeditOK := false }, db)
  | signal =>
    let (tasks, db) := tasks.signal1 db signal
    tasks.signal2 db signal

/-! ## What removes a record -/

variable {tasks : Tasks} {db : DB} {signal : Signal}

theorem notebook_signal1 : (tasks.signal1 db signal).2.notebook = db.notebook := by
  unfold signal1
  split
  · exact TaskProducted.notebook_onSignal
  · rfl

theorem task2_signal1 : (tasks.signal1 db signal).1.task2 = tasks.task2 := by
  unfold signal1
  split <;> rfl

variable (tasks db signal)

/-- A note is removed only by the answer that its task accepts. -/
theorem notebook_onSignal :
    (tasks.onSignal db signal).2.notebook = db.notebook ∨
      ∃ task, tasks.task2 = some task ∧ task.accepts signal = true ∧
        (tasks.onSignal db signal).2.notebook =
          db.notebook.delete (fun r => r.id == task.notebook.id) := by
  unfold onSignal
  split
  · exact .inl rfl
  · exact .inl rfl
  · dsimp only
    rw [signal2, task2_signal1]
    cases htask2 : tasks.task2 with
    | none => exact .inl notebook_signal1
    | some task =>
      dsimp only
      rw [TaskNotebook.db_onSignal]
      split
      · next hacc =>
        refine .inr ⟨task, rfl, hacc, ?_⟩
        rw [DB.removeNotebook, notebook_signal1]
      · exact .inl notebook_signal1

/-- The task of notes touches only notes. -/
theorem producted_signal2 :
    (tasks.signal2 db signal).2.producted = db.producted ∧
      (tasks.signal2 db signal).2.order = db.order := by
  unfold signal2
  split
  · rw [TaskNotebook.db_onSignal]
    split <;> exact ⟨rfl, rfl⟩
  · exact ⟨rfl, rfl⟩

/-- A mould record is removed only by the answer that its task accepts. -/
theorem producted_onSignal :
    (tasks.onSignal db signal).2.producted = db.producted ∨
      ∃ task, tasks.task1 = some task ∧ task.accepts signal = true ∧
        (tasks.onSignal db signal).2.producted =
          db.producted.delete (fun r => r.id == task.producted.id) := by
  unfold onSignal
  split
  · exact .inl rfl
  · exact .inl rfl
  · dsimp only
    rw [(producted_signal2 _ _ _).1]
    unfold signal1
    cases htask1 : tasks.task1 with
    | none => exact .inl rfl
    | some task =>
      dsimp only
      rw [TaskProducted.producted_onSignal]
      split
      · next hacc => exact .inr ⟨task, rfl, hacc, rfl⟩
      · exact .inl rfl

/-- The tasks have nothing to do with orders. -/
theorem order_onSignal : (tasks.onSignal db signal).2.order = db.order := by
  unfold onSignal
  split
  · rfl
  · rfl
  · dsimp only
    rw [(producted_signal2 _ _ _).2]
    unfold signal1
    split
    · exact TaskProducted.order_onSignal
    · rfl

variable {tasks db signal}

/-- If the records that the tasks wait for are gone, an answer removes nothing. -/
theorem records_onSignal
    (h1 : ∀ task, tasks.task1 = some task → task.accepts signal = true →
      ∀ r ∈ db.producted.rows, r.id ≠ task.producted.id)
    (h2 : ∀ task, tasks.task2 = some task → task.accepts signal = true →
      ∀ r ∈ db.notebook.rows, r.id ≠ task.notebook.id) :
    (tasks.onSignal db signal).2.notebook = db.notebook ∧
      (tasks.onSignal db signal).2.producted = db.producted := by
  constructor
  · rcases tasks.notebook_onSignal db signal with hsame | ⟨task, htask, hacc, hdel⟩
    · exact hsame
    · rw [hdel, AutoTable.delete_of_forall]
      simpa using h2 task htask hacc
  · rcases tasks.producted_onSignal db signal with hsame | ⟨task, htask, hacc, hdel⟩
    · exact hsame
    · rw [hdel, AutoTable.delete_of_forall]
      simpa using h1 task htask hacc

/-! ## Starting, and running out of time -/

theorem runTask1_db (tasks : Tasks) (db : DB) :
    (tasks.runTask1 db).2.1.notebook = db.notebook ∧
      (tasks.runTask1 db).2.1.producted = db.producted := by
  unfold runTask1
  split
  · split
    · unfold TaskProducted.start
      split
      · exact ⟨rfl, rfl⟩
      · simp only [TaskProducted.requestFinished, Bool.false_eq_true, if_false]
        split
        · exact ⟨rfl, rfl⟩
        · exact ⟨rfl, rfl⟩
    · split
      · exact ⟨rfl, rfl⟩
      · exact ⟨rfl, rfl⟩
  · exact ⟨rfl, rfl⟩

/-- `runTask` removes no record. -/
theorem runTask_db (tasks : Tasks) (db : DB) :
    (tasks.runTask db).2.1.notebook = db.notebook ∧
      (tasks.runTask db).2.1.producted = db.producted := by
  unfold runTask
  split
  · exact runTask1_db tasks db
  · exact ⟨rfl, rfl⟩

/-- Nor does a timer that runs out. -/
theorem timeOut_db {r : Tasks × DB} (h : tasks.timeOut1 db = some r ∨ tasks.timeOut2 db = some r) :
    r.2.notebook = db.notebook ∧ r.2.producted = db.producted := by
  unfold timeOut1 timeOut2 at h
  rcases h with h | h
  · split at h
    · split at h
      · cases h
        simp only [TaskProducted.requestFinished, Bool.false_eq_true, if_false]
        split
        · exact ⟨rfl, rfl⟩
        · exact ⟨rfl, rfl⟩
      · cases h
    · cases h
  · split at h
    · split at h
      · cases h
        exact ⟨rfl, rfl⟩
      · cases h
    · cases h

/-! ## The note that the task waits for -/

/-- The task of notes, if there is one, was there before and has the note it had. -/
def SameNote (tasks tasks' : Tasks) : Prop :=
  ∀ task', tasks'.task2 = some task' → ∃ task, tasks.task2 = some task ∧
    task'.notebook = task.notebook ∧ task'.connected = task.connected

theorem SameNote.of_eq {tasks' : Tasks} (h : tasks'.task2 = tasks.task2) : SameNote tasks tasks' :=
  fun task' htask' => ⟨task', h ▸ htask', rfl, rfl⟩

theorem sameNote_onSignal (tasks : Tasks) (db : DB) (signal : Signal) :
    SameNote tasks (tasks.onSignal db signal).1 := by
  unfold onSignal
  split
  · exact .of_eq rfl
  · exact .of_eq rfl
  · intro task' htask'
    simp only [signal2, task2_signal1] at htask'
    split at htask'
    · next task htask =>
      cases htask'
      exact ⟨task, htask, TaskNotebook.same_onSignal task _ _⟩
    · rw [task2_signal1] at htask'
      exact ⟨task', htask', rfl, rfl⟩

theorem sameNote_timeOut {r : Tasks × DB}
    (h : tasks.timeOut1 db = some r ∨ tasks.timeOut2 db = some r) : SameNote tasks r.1 := by
  unfold timeOut1 timeOut2 at h
  rcases h with h | h
  · split at h
    · split at h
      · cases h
        exact .of_eq rfl
      · cases h
    · cases h
  · split at h
    · next task htask =>
      split at h
      · cases h
        intro task' htask'
        cases htask'
        exact ⟨task, htask, rfl, rfl⟩
      · cases h
    · cases h

/-- A task that `runTask` leaves behind was there before, or was started with the first note. -/
theorem task2_runTask {task' : TaskNotebook} (h : (tasks.runTask db).1.task2 = some task') :
    tasks.task2 = some task' ∨ (task'.connected = true → task'.notebook ∈ db.notebook.rows) := by
  have hfirst : (tasks.runTask1 db).1.task2 = tasks.task2 := by
    unfold runTask1
    split
    · split
      · rfl
      · split <;> rfl
    · rfl
  unfold runTask at h
  split at h
  · simp only [runTask2] at h
    split at h
    · split at h
      · -- there was no task
        right
        cases h
        intro hconn
        unfold TaskNotebook.start at hconn ⊢
        rw [(runTask1_db tasks db).1] at hconn ⊢
        split at hconn
        · next note hnote =>
          split at hconn
          · cases hconn
          · simp_all [List.mem_of_mem_head?]
        · cases hconn
      · split at h
        · cases h
        · rw [hfirst] at h
          exact .inl h
    · rw [hfirst] at h
      exact .inl h
  · exact .inl h

end Tasks

end ProgrammingPath.Mes
