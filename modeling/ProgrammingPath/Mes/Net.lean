import ProgrammingPath.Mes.Request

/-!
# The connection to the server (`NetCSCP/mesnet.h`, `NetCSCP/mesnet.cpp`)

`Net` is the state of `MESNetPrivate`. There are two sockets: on A the terminal registers and
uploads, on B the server sends orders and files. Each slot of the class is a function from a state
to the new state and the list of its *effects*, in order: signals emitted, sockets told to connect
or to close, messages written. What a socket reports in turn (`connected`, `disconnected`, an
error, bytes to read) comes back as a call of the slot for it.
-/

namespace ProgrammingPath.Mes

open ProgrammingPath.Qt

inductive Sock where
  | a | b
  deriving DecidableEq, Repr

/-- `MESNet::State`. -/
inductive NetState where
  | unconnected | connecting | connected | closing
  deriving DecidableEq, Repr

/-- The signals of `MESNet`. In `signalReg` the time is the one the server sent, or `none` for the
terminal's own clock. -/
inductive Signal where
  | signalReg (flag : Bool) (serverTime : Option QByteArray) (result : FDATResult)
  | produce (type : UInt8) (result : FDATResult)
  | icCard (type : UInt8) (result : FDATResult)
  | defectiveInfo (result : FDATResult)
  | adjMachine (result : FDATResult)
  | other (response : MESOtherResponse)
  | qualityRegulate (result : FDATResult)
  | pda (result : FDATResult)
  | wifiSignal (result : FDATResult)
  | fileDown (response : MESFileDownResponse)
  | fileDownStream (response : MESFileDownStreamResponse)
  | order (request : MESOrderRequest)
  | controlDev (request : MESControlRequest)
  | mail (request : MESNoticeRequest)
  | closeA
  | closeB
  | connectBSucess
  deriving DecidableEq, Repr

/-- What the terminal writes to a socket, before it is put into a frame. -/
inductive Message where
  | reg
  | produce (record : Producted)
  | note (record : Notebook)
  | fileDown (name : QString) (ver : QByteArray)
  | fileDownStream (name : QString) (offsetAddr : UInt32) (packSize : UInt16)
  | orderResponse (dataType : UInt16) (dispatchNo dispatchPrior : QString) (result : UInt8)
  | controlResponse (dataType : UInt8) (result : UInt8) (cmdCode adjustNo : QByteArray)
  | mailResponse
  deriving DecidableEq, Repr

inductive Effect where
  | emit (signal : Signal)
  | connectToHost (sock : Sock)
  | close (sock : Sock)
  | write (sock : Sock) (message : Message)
  deriving DecidableEq, Repr

structure Net where
  startFlag : Bool := false
  /-- `regRequest.Result` -/
  regResult : FDATResult := .non
  stateA : NetState := .unconnected
  stateB : NetState := .unconnected
  buffReadA : QByteArray := []
  buffReadB : QByteArray := []
  /-- requests waiting to be written to A -/
  aBuff : List Message := []
  deriving DecidableEq, Repr

namespace Net

/-! ## Connections -/

/-- `MESNetPrivate::close`. -/
def close (net : Net) : Net × List Effect :=
  ({ net with startFlag := false, regResult := .non, stateA := .connecting, stateB := .unconnected },
    [.close .a, .close .b])

/-- `MESNetPrivate::start`, also `_q_restart`. -/
def start (net : Net) : Net × List Effect :=
  ({ net.close.1 with startFlag := true, regResult := .non }, net.close.2 ++ [.connectToHost .a])

/-- `addRequestA`: the request is queued, `startNextRequestA` is called later. -/
def addRequestA (net : Net) (m : Message) : Net := { net with aBuff := net.aBuff ++ [m] }

/-- `_q_startNextRequestA`; it is queued once for each request, so `aBuff` is not empty. -/
def startNextRequestA (net : Net) : Net × List Effect :=
  match net.aBuff with
  | [] => (net, [])
  | m :: rest => ({ net with aBuff := rest }, [.write .a m])

/-- `_q_slotConnectedA`: register. -/
def slotConnectedA (net : Net) : Net × List Effect :=
  (({ net with stateA := .connected } : Net).addRequestA .reg, [])

/-- `_q_slotConnectedB`. -/
def slotConnectedB (net : Net) : Net × List Effect :=
  ({ net with stateB := .connected }, [.emit .connectBSucess])

/-- `_q_slotClosedA`: everybody who waits for an answer on A is told. -/
def slotClosedA (net : Net) : Net × List Effect :=
  ({ net with stateA := .unconnected, regResult := .failClose },
    [.emit (.signalReg false none .failClose), .emit (.produce 0xFF .failClose),
      .emit (.icCard 0xFF .failClose), .emit (.defectiveInfo .failClose),
      .emit (.adjMachine .failClose), .emit (.other { result := .failClose }),
      .emit (.qualityRegulate .failClose), .emit .closeA])

/-- `_q_slotClosedB`: the downloads are told, and B is connected again while registered. -/
def slotClosedB (net : Net) : Net × List Effect :=
  ({ net with stateB := .closing },
    [.emit (.fileDown { result := .failClose }), .emit (.fileDownStream { result := .failClose }),
      .emit .closeB] ++
      if net.regResult = .regOk then [.connectToHost .b] else [])

/-- The errors of a socket that the slots tell apart. -/
inductive SocketError where
  | remoteHostClosed | other
  deriving DecidableEq, Repr

/-- `_q_slotErrorA`. -/
def slotErrorA (net : Net) : SocketError → Net × List Effect
  | .remoteHostClosed => (net, [])
  | .other => ({ net with stateA := .unconnected, regResult := .failClose }, [.close .a])

/-- `_q_slotErrorB`. -/
def slotErrorB (net : Net) : SocketError → Net × List Effect
  | .remoteHostClosed => (net, [])
  | .other =>
    ({ net with stateB := .unconnected },
      .close .b :: if net.regResult = .regOk then [.connectToHost .b] else [])

/-- `_slot_regTimeOut`. -/
def slotRegTimeOut (net : Net) : Net × List Effect :=
  (net, if net.regResult ≠ .regOk then [.close .a, .close .b] else [])

/-! ## The handlers -/

/-- `protocol_regdev_parse`. -/
def protocolRegdevParse (net : Net) (pack : MESPack) : Net × List Effect :=
  match MESRegResponse.decode pack with
  | none => (net, [])
  | some response =>
    if net.regResult = .regOk then (net, [])
    else if response.pmsPermit = 0x00 then
      ({ net with regResult := .regOk },
        [.connectToHost .b, .emit (.signalReg true (some response.serverSystemTime) .regOk)])
    else
      let result : FDATResult :=
        match response.pmsPermit.toNat with
        | 0x01 => .regIpNon
        | 0x02 => .regNon
        | 0x03 => .regFileNon
        | _ => .non
      ({ net with regResult := result }, [.close .a, .emit (.signalReg false none result)])

def protocolProduceParse (pack : MESPack) : List Effect :=
  [.emit (.produce (pack.body.getD 0 0) (fdatResultFormatAppendix (pack.body.getD 1 0)))]

def protocolIcCardParse (pack : MESPack) : List Effect :=
  [.emit (.icCard (pack.body.getD 0 0) (fdatResultFormatAppendix (pack.body.getD 1 0)))]

def protocolDefectiveInfoParse (pack : MESPack) : List Effect :=
  [.emit (.defectiveInfo (fdatResultFormatAppendix (pack.body.getD 0 0)))]

def protocolAdjMachineParse (pack : MESPack) : List Effect :=
  match MESADJMachineResponse.decode pack with
  | none => []
  | some result => [.emit (.adjMachine result)]

def protocolOtherParse (pack : MESPack) : List Effect :=
  match MESOtherResponse.decode pack with
  | none => []
  | some response => [.emit (.other response)]

def protocolQualityRegulateParse (pack : MESPack) : List Effect :=
  [.emit (.qualityRegulate (fdatResultFormatAppendix (pack.body.getD 0 0)))]

def protocolFileDownParse (pack : MESPack) : List Effect :=
  match MESFileDownResponse.decode pack, MESFileDownStreamResponse.decode pack with
  | some response, _ => [.emit (.fileDown response)]
  | none, some response => [.emit (.fileDownStream response)]
  | none, none => []

def protocolPdaParse (_ : MESPack) : List Effect := []

/-- `protocol_wifi_signal_parse`: the signal emitted is the one for defects. -/
def protocolWifiSignalParse (pack : MESPack) : List Effect :=
  [.emit (.defectiveInfo (fdatResultFormatAppendix (pack.body.getD 0 0)))]

def protocolOrderParse (db : DB) (pack : MESPack) : List Effect :=
  match MESOrderRequest.decode db pack with
  | none => []
  | some request => [.emit (.order request)]

def protocolControlDevParse (pack : MESPack) : List Effect :=
  match MESControlRequest.decode pack with
  | none => []
  | some request => [.emit (.controlDev request)]

def protocolMailParse (sock : Sock) (pack : MESPack) : List Effect :=
  match MESNoticeRequest.decode pack with
  | none => []
  | some request => [.emit (.mail request), .write sock .mailResponse]

/-! ## Reading -/

/-- The handlers of `parseReadBuff`, by name. -/
inductive Handler where
  | regdev | produce | icCard | defectiveInfo | adjMachine | other | qualityRegulate | fileDown
  | pda | wifiSignal | order | controlDev | mail
  deriving DecidableEq, Repr

/-- The switch of `parseReadBuff`: the handlers called for a packet, in order. The case of
`0x17 + 0x80` has no `break`, so it runs on into the case of `0xD0`. -/
def handlers (pack : MESPack) : List Handler :=
  let d0 : List Handler := if pack.body.length < 5 then [.wifiSignal] else [.order]
  match pack.cmdSerial.toNat with
  | 0x81 => [.regdev]
  | 0x90 => [.produce]
  | 0x91 => [.icCard]
  | 0x93 => [.defectiveInfo]
  | 0x94 => [.adjMachine]
  | 0x95 => [.other]
  | 0x96 => [.qualityRegulate]
  | 0xC1 => [.fileDown]
  | 0xC0 => [.fileDown]
  | 0x97 => .pda :: d0
  | 0xD0 => d0
  | 0xD7 => [.controlDev]
  | 0xD8 => [.mail]
  | _ => []

/-- Call one handler. `db` is the local database, which decoding an order consults. -/
def call (db : DB) (net : Net) (sock : Sock) (pack : MESPack) : Handler → Net × List Effect
  | .regdev => net.protocolRegdevParse pack
  | .produce => (net, protocolProduceParse pack)
  | .icCard => (net, protocolIcCardParse pack)
  | .defectiveInfo => (net, protocolDefectiveInfoParse pack)
  | .adjMachine => (net, protocolAdjMachineParse pack)
  | .other => (net, protocolOtherParse pack)
  | .qualityRegulate => (net, protocolQualityRegulateParse pack)
  | .fileDown => (net, protocolFileDownParse pack)
  | .pda => (net, protocolPdaParse pack)
  | .wifiSignal => (net, protocolWifiSignalParse pack)
  | .order => (net, protocolOrderParse db pack)
  | .controlDev => (net, protocolControlDevParse pack)
  | .mail => (net, protocolMailParse sock pack)

/-- Call the handlers one after the other. -/
def callAll (db : DB) (sock : Sock) (pack : MESPack) : Net → List Handler → Net × List Effect
  | net, [] => (net, [])
  | net, h :: hs =>
    let r := callAll db sock pack (call db net sock pack h).1 hs
    (r.1, (call db net sock pack h).2 ++ r.2)

/-- What happens to a packet once it is cut out of the buffer. -/
def dispatch (db : DB) (net : Net) (sock : Sock) (pack : MESPack) : Net × List Effect :=
  callAll db sock pack net (handlers pack)

/-- Where the first frame of the buffer starts and ends, if it is complete: the search of
`parseReadBuff`. -/
def framePosition (buff : QByteArray) : Option (Nat × Nat) :=
  let headPosition := buff.findIdx (· == 0x5A)
  if buff.length ≤ headPosition ∧ QByteArray.byteAt buff headPosition ≠ 0x5A then none
  else if buff.length ≤ headPosition + 4 then none
  else
    let bodyLength := leWord (buff.getD (headPosition + 3) 0) (buff.getD (headPosition + 4) 0)
    let frameSize := 1 + 4 + bodyLength + 2
    let endPosition := headPosition + frameSize
    if buff.length < endPosition then none else some (headPosition, endPosition)

/-- Cut the first frame out of the buffer; what stands before it is dropped with it. -/
def cutFrame (buff : QByteArray) : Option (QByteArray × QByteArray) :=
  (framePosition buff).map fun p =>
    ((buff.drop p.1).take (p.2 - p.1), buff.drop p.2)

def buff (net : Net) : Sock → QByteArray
  | .a => net.buffReadA
  | .b => net.buffReadB

def setBuff (net : Net) (sock : Sock) (buff : QByteArray) : Net :=
  match sock with
  | .a => { net with buffReadA := buff }
  | .b => { net with buffReadB := buff }

/-- `_q_slotReadyReadA` and `_q_slotReadyReadB` with `parseReadBuff`: append what was read, and
handle one frame. The packet handled, if there was one, is returned as well. -/
def slotReadyRead (db : DB) (net : Net) (sock : Sock) (array : QByteArray) :
    Net × List Effect × Option MESPack :=
  let buff := net.buff sock ++ array
  match cutFrame buff with
  | none => (net.setBuff sock buff, [], none)
  | some (pkBuff, rest) =>
    let pack := MESPack.parse pkBuff
    let r := (net.setBuff sock rest).dispatch db sock pack
    (r.1, r.2, some pack)

/-! ## Events -/

/-- Everything that can happen to the connection: the program's own calls, what the sockets report,
and the timers. -/
inductive Event where
  | start
  | close
  | restart
  | connected (sock : Sock)
  | closed (sock : Sock)
  | error (sock : Sock) (err : SocketError)
  | regTimeOut
  | startNextRequestA
  | readyRead (sock : Sock) (array : QByteArray)
  deriving DecidableEq, Repr

def onEvent (db : DB) (net : Net) : Event → Net × List Effect
  | .start => net.start
  | .close => net.close
  | .restart => net.start
  | .connected .a => net.slotConnectedA
  | .connected .b => net.slotConnectedB
  | .closed .a => net.slotClosedA
  | .closed .b => net.slotClosedB
  | .error .a err => net.slotErrorA err
  | .error .b err => net.slotErrorB err
  | .regTimeOut => net.slotRegTimeOut
  | .startNextRequestA => net.startNextRequestA
  | .readyRead sock array =>
    ((net.slotReadyRead db sock array).1, (net.slotReadyRead db sock array).2.1)

/-! ## The buffers are touched by reading only -/

variable {db : DB} {net : Net} {sock : Sock} {pack : MESPack}

@[simp] theorem buff_setBuff (s : Sock) (b : QByteArray) :
    (net.setBuff sock b).buff s = if s = sock then b else net.buff s := by
  cases s <;> cases sock <;> rfl

/-- A handler changes at most the registration result. -/
theorem call_fst (h : Handler) :
    ∃ result, (call db net sock pack h).1 = { net with regResult := result } := by
  cases h with
  | regdev =>
    simp only [call, protocolRegdevParse]
    split
    · exact ⟨_, rfl⟩
    · split
      · exact ⟨_, rfl⟩
      · split
        · exact ⟨_, rfl⟩
        · exact ⟨_, rfl⟩
  | _ => exact ⟨net.regResult, rfl⟩

theorem callAll_fst (hs : List Handler) :
    ∃ result, (callAll db sock pack net hs).1 = { net with regResult := result } := by
  induction hs generalizing net with
  | nil => exact ⟨_, rfl⟩
  | cons h hs ih =>
    obtain ⟨r₁, h₁⟩ := @call_fst db net sock pack h
    obtain ⟨r₂, h₂⟩ := @ih { net with regResult := r₁ }
    refine ⟨r₂, ?_⟩
    simp only [callAll, h₁, h₂]

theorem dispatch_fst :
    ∃ result, (dispatch db net sock pack).1 = { net with regResult := result } :=
  callAll_fst _

@[simp] theorem buff_dispatch (s : Sock) : (dispatch db net sock pack).1.buff s = net.buff s := by
  obtain ⟨r, h⟩ := @dispatch_fst db net sock pack
  rw [h]
  cases s <;> rfl

/-- The buffer after a read: what follows the frame that was cut, or everything. -/
theorem buff_slotReadyRead (s : Sock) (array : QByteArray) :
    (net.slotReadyRead db sock array).1.buff s =
      if s = sock then ((cutFrame (net.buff sock ++ array)).map Prod.snd).getD
        (net.buff sock ++ array) else net.buff s := by
  cases h : cutFrame (net.buff sock ++ array) with
  | none => simp [slotReadyRead, h]
  | some c => simp [slotReadyRead, h]

/-- No event but a read touches a buffer; none of the ways a connection ends clears it. -/
theorem buff_onEvent {e : Event} (h : ∀ sock array, e ≠ .readyRead sock array) (s : Sock) :
    (net.onEvent db e).1.buff s = net.buff s := by
  cases e with
  | readyRead sock array => exact absurd rfl (h sock array)
  | connected sock => cases sock <;> cases s <;> rfl
  | closed sock => cases sock <;> cases s <;> rfl
  | error sock err => cases sock <;> cases err <;> cases s <;> rfl
  | startNextRequestA =>
    simp only [onEvent, startNextRequestA]
    split
    · rfl
    · cases s <;> rfl
  | _ => cases s <;> rfl

theorem pack_slotReadyRead (array : QByteArray) :
    (net.slotReadyRead db sock array).2.2 =
      (cutFrame (net.buff sock ++ array)).map (fun c => MESPack.parse c.1) := by
  cases h : cutFrame (net.buff sock ++ array) with
  | none => simp [slotReadyRead, h]
  | some c => simp [slotReadyRead, h]

end Net

end ProgrammingPath.Mes
