import ProgrammingPath.Lib.Run
import ProgrammingPath.Mes.FileDown
import ProgrammingPath.Mes.OrderTable
import ProgrammingPath.Mes.Tasks

/-!
# The program

The parts put together: the connection, the main order with the database, the upload tasks and the
downloads. A signal of the network goes to whoever is connected to it (`CSCPNotebookTask.cpp`):

* answers on A go to the tasks;
* a dispatched order goes to `CSCPAction::OnOrderSend`, and is confirmed on B;
* a control command is carried out and confirmed on B;
* responses to downloads go to the downloads;
* once B is connected, every file of the cache directory is downloaded again.

Commands that change something outside this state (the clock, the password, the shifts) are left
out, as is the restart of the program after a file was installed.
-/

namespace ProgrammingPath.Mes

open ProgrammingPath.Qt ProgrammingPath.Lib

structure App where
  net : Net := {}
  shop : Shop := {}
  tasks : Tasks := {}
  downs : Downloads := {}
  /-- everything written to the sockets so far -/
  written : List (Sock × Message) := []

namespace App

def write (app : App) (sock : Sock) (message : Message) : App :=
  { app with written := app.written ++ [(sock, message)] }

/-- What a download does: it writes to B, and reports a file that was installed. -/
def onDownEffect (app : App) : DownEffect → App
  | .request message => app.write .b message
  | .install _ _ _ =>
    { app with shop := { app.shop with db := app.shop.db.insertNotebook (.otherSetInfo 0x00) } }

def onDown (app : App) (r : Downloads × List DownEffect) : App :=
  r.2.foldl onDownEffect { app with downs := r.1 }

/-- `CSCPNotebookTask::slot_ConnectBSucess`. The files are taken in the order of their numbers, not
of their names; each download opens its own file. -/
def slotConnectBSucess (app : App) : App :=
  app.downs.cache.rows.foldl (fun app f => app.onDown (app.downs.start f.name [])) app

/-- `CSCPNotebookTask::slot_protocol_order`. -/
def slotProtocolOrder (app : App) (request : MESOrderRequest) : App :=
  ({ app with shop := app.shop.onOrderSend request.order request.materialList } : App).write .b
    (.orderResponse request.dataType request.order.moDispatchNo request.order.moDispatchPrior 0x00)

/-- What a control command does, before it is confirmed. -/
def control (app : App) (request : MESControlRequest) : App :=
  match request.dataType.toNat with
  | 0x04 => app.onDown (app.downs.start request.fileName request.fileVer)
  | 0x07 => { app with shop := app.shop.adjustOrders request.orderIndexList }
  | 0x09 => { app with shop := app.shop.onOrderReplace }
  | 0x0E => { app with shop := app.shop.onOrderDelete request.dispatchNo }
  | _ => app

/-- `CSCPNotebookTask::slot_protocol_control_dev`. -/
def slotProtocolControlDev (app : App) (request : MESControlRequest) : App :=
  (app.control request).write .b
    (.controlResponse request.dataType 0x00 request.cmdCode request.adjustNo)

def onSignal (app : App) : Signal → App
  | .order request => app.slotProtocolOrder request
  | .controlDev request => app.slotProtocolControlDev request
  | .connectBSucess => app.slotConnectBSucess
  | .fileDown response => app.onDown (app.downs.onFileDown response)
  | .fileDownStream response => app.onDown (app.downs.onFileDownStream response)
  | signal =>
    { app with
      tasks := (app.tasks.onSignal app.shop.db signal).1
      shop := { app.shop with db := (app.tasks.onSignal app.shop.db signal).2 } }

def onEffect (app : App) : Effect → App
  | .emit signal => app.onSignal signal
  | .write sock message => app.write sock message
  | .connectToHost _ => app
  | .close _ => app

/-- A slot of the network has run: its state is stored, its effects happen in order. -/
def handle (app : App) (r : Net × List Effect) : App := r.2.foldl onEffect { app with net := r.1 }

/-! ## Events -/

inductive Event where
  | net (e : Net.Event)
  /-- `runTask` -/
  | tick
  | timeOut1
  | timeOut2
  /-- the operator or the machine does something -/
  | shop (a : Shop.Act)
  /-- a page of the program stores a note -/
  | note (type : NotebookType)
  deriving DecidableEq, Repr

/-- What the operator and the machine do; the rest of `Shop.Act` comes from the server. -/
def isLocal : Shop.Act → Bool
  | .orderFrame _ | .orderDelete _ | .orderReplace => false
  | _ => true

def step (app : App) : Event → Option App
  | .net e => some (app.handle (app.net.onEvent app.shop.db e))
  | .tick =>
    let r := app.tasks.runTask app.shop.db
    some { app with
      tasks := r.1
      shop := { app.shop with db := r.2.1 }
      net := r.2.2.foldl Net.addRequestA app.net }
  | .timeOut1 => (app.tasks.timeOut1 app.shop.db).map fun r =>
    { app with tasks := r.1, shop := { app.shop with db := r.2 } }
  | .timeOut2 => (app.tasks.timeOut2 app.shop.db).map fun r =>
    { app with tasks := r.1, shop := { app.shop with db := r.2 } }
  | .shop a =>
    if isLocal a then (app.shop.step a).map fun shop => { app with shop := shop } else none
  | .note type =>
    some { app with shop := { app.shop with db := app.shop.db.insertNotebook type } }

/-- The program after it was started, with the database and the cache directory it finds. -/
def init (db : DB) (cache : AutoTable CacheFile.id) (badCfg : Int32 → List QString) : App :=
  { shop := ({ db := db, badCfg := badCfg } : Shop).onUpdate, downs := { cache := cache } }

/-- What the network does in a step. -/
def effects (app : App) : Event → List Effect
  | .net e => (app.net.onEvent app.shop.db e).2
  | _ => []

/-- The packet that a step handles, if it is a read that completes a frame. -/
def packet (app : App) : Event → Option MESPack
  | .net (.readyRead sock array) => (app.net.slotReadyRead app.shop.db sock array).2.2
  | _ => none

end App

end ProgrammingPath.Mes
