import ProgrammingPath.Lib.Heap
import ProgrammingPath.Lib.Memory

/-!
# A client session of the MQTT server

`struct mqtt_session` and the functions that fill and drain its output queue. The queue is a chain
of heap cells that three pointers of the session describe: `outpacket` is its first cell,
`outpacketLast` its last one, and `currOutPacket` the one that is being sent. A function returns
`none` where the code would follow a pointer to memory that is not allocated.
-/

namespace ProgrammingPath.Mqtt

open ProgrammingPath.Lib

/-- The events a client socket is registered for: `EPOLLIN | EPOLLERR | EPOLLRDHUP`, or `EPOLLOUT`
alone. -/
inductive Interest
  | input
  | output
  deriving DecidableEq, Repr

/-- `struct mqtt_packet` on the output queue; `dlen` is the length of `data`. -/
structure OutPacket where
  next : Option Nat
  data : List UInt8
  pos : Nat
  deriving DecidableEq, Repr

/-- The `struct mqtt_packet` a session reads into. `data` is the memory behind the pointer of that
name, which `realloc` gave `dlen` bytes. -/
structure InPacket where
  data : Mem
  dlen : Int
  pos : Int
  command : UInt8
  remLength : Nat
  remByteSize : Int
  remNeedLength : Int

/-- `memset(session, 0, ...)`. -/
def InPacket.init : InPacket := ⟨Mem.zero, 0, 0, 0, 0, 0, 0⟩

/-- `struct mqtt_session`, with the heap its output packets are allocated on and the events its
socket is registered for. -/
structure Session where
  inpacket : InPacket
  outpacket : Option Nat
  outpacketLast : Option Nat
  currOutPacket : Option Nat
  heap : Heap OutPacket
  interest : Interest
  heartTime : Int
  lastTime : Int

/-- A session as `client_accept` leaves it, registered by `main`. -/
def Session.accepted (now : Int) : Session :=
  ⟨InPacket.init, none, none, none, Heap.empty, .input, 50, now⟩

/-- The packets the server sends have at least their two bytes of fixed header. -/
abbrev Message : Type := { bs : List UInt8 // bs ≠ [] }

/-! ## Filling the queue -/

/-- `mqtt_session_push_packet`. `alloc` says whether the two `malloc`s succeed; when they do not, the
function returns `-1` and has done nothing. -/
def mqttSessionPushPacket (s : Session) (buff : Message) (alloc : Bool) : Option Session :=
  if alloc then
    let packet := s.heap.brk
    let heap := s.heap.malloc ⟨none, buff.1, 0⟩
    match s.outpacket with
    | none =>
      some { s with
        heap := heap, outpacket := some packet, outpacketLast := some packet, interest := .output }
    | some _ => do
      let last ← s.outpacketLast
      let _ ← heap.cell last
      some { s with
        heap := heap.modify last fun n => { n with next := some packet }
        outpacketLast := some packet
        interest := .output }
  else
    some s

/-! ## Draining the queue -/

/-- What `send` returns: the socket takes `n + 1` bytes (or all that are left), it is full, or it is
broken. -/
inductive SendResult
  | sent (n : Nat)
  | again
  | error
  deriving DecidableEq, Repr

/-- What `client_push_msg` returns and leaves behind: the bytes the socket took, and the packet it
reported with `log_hex(..., "send:")` when that was its last byte. -/
structure PushMsg where
  ret : Int
  session : Session
  taken : List UInt8
  reported : List (List UInt8)

/-- `client_push_msg`. -/
def clientPushMsg (s : Session) (r : SendResult) : Option PushMsg :=
  match s.currOutPacket with
  | none => some ⟨-1, s, [], []⟩
  | some curr => do
    let packet ← s.heap.cell curr
    match r with
    | .again => some ⟨0, s, [], []⟩
    | .error => some ⟨-1, s, [], []⟩
    | .sent n =>
      let taken := (packet.data.drop packet.pos).take (n + 1)
      let pos := packet.pos + taken.length
      -- nothing was left to send: `send` returns 0 and `errno` is not about this call
      if taken = [] then some ⟨-1, s, [], []⟩
      else if packet.data.length ≤ pos then do
        let first ← s.outpacket
        let head ← s.heap.cell first
        some ⟨0, { s with
          outpacket := head.next, heap := s.heap.free curr, currOutPacket := none }, taken,
          [packet.data]⟩
      else
        some ⟨0, { s with heap := s.heap.modify curr fun n => { n with pos := pos } }, taken, []⟩

/-- The `EPOLLOUT` branch of the event loop for one session, up to the test of what
`client_push_msg` returned. -/
def onWritable (s : Session) (now : Int) (r : SendResult) : Option PushMsg := do
  let p ← clientPushMsg
    { s with lastTime := now, currOutPacket := s.currOutPacket <|> s.outpacket } r
  if p.ret = 0 ∧ p.session.outpacket = none then
    some { p with session := { p.session with interest := .input } }
  else
    some p

end ProgrammingPath.Mqtt
