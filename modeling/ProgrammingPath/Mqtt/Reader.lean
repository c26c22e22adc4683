import ProgrammingPath.Mqtt.Session

/-!
# Reading MQTT packets

`client_read_message` is called whenever the socket of a client is readable and reads without
blocking: the command byte, the bytes of the remaining length, and the payload. What it has of a
packet stays in `inpacket` when `read` has nothing more, and the next call goes on from there. A
packet that is complete is answered through the output queue of the session.
-/

namespace ProgrammingPath.Mqtt

open ProgrammingPath.Lib

/-! ## The socket -/

/-- What the kernel makes of one `read`: up to `n + 1` of the bytes that were asked for and have
arrived, `EAGAIN`, the end of the stream, or an error. -/
inductive ReadOutcome
  | data (n : Nat)
  | again
  | eof
  | error
  deriving DecidableEq, Repr

/-- The bytes that have arrived and were not read yet, and what the next reads do. When nothing is
said about a read it is `EAGAIN`. -/
structure Sock where
  outstanding : List UInt8
  sched : List ReadOutcome
  deriving DecidableEq, Repr

/-- What `read` returns. -/
inductive ReadResult
  | got (bs : List UInt8)
  | again
  | eof
  | error
  deriving DecidableEq, Repr

/-- `read(sock, buf, n)`. -/
def Sock.read (k : Sock) (n : Nat) : ReadResult × Sock :=
  match k.sched with
  | [] => (.again, k)
  | .again :: sched => (.again, { k with sched := sched })
  | .eof :: sched => (.eof, { k with sched := sched })
  | .error :: sched => (.error, { k with sched := sched })
  | .data m :: sched =>
    if k.outstanding = [] then (.again, { k with sched := sched })
    else
      (.got ((k.outstanding.take n).take (m + 1)),
        ⟨k.outstanding.drop (min n (m + 1)), sched⟩)

/-! ## Parts of the fixed header -/

/-- The loop of `mqtt_remainlen2bytes`, for at most `fuel` bytes. -/
def remainlenBytes : Nat → Nat → List UInt8
  | 0, _ => []
  | fuel + 1, len =>
    if len >>> 7 = 0 then [UInt8.ofNat (len % 128)]
    else (UInt8.ofNat (len % 128) ||| 0x80) :: remainlenBytes fuel (len >>> 7)

/-- `mqtt_remainlen2bytes`. A `size_t` has at most ten groups of seven bits. -/
def mqttRemainlen2bytes (len : Nat) : List UInt8 := remainlenBytes 10 len

/-- `mqtt_num_rem_len_bytes`. -/
def mqttNumRemLenBytes (buf : Mem) : Nat :=
  if buf 1 &&& 0x80 = 0x80 then
    if buf 2 &&& 0x80 = 0x80 then
      if buf 3 &&& 0x80 = 0x80 then 4 else 3
    else 2
  else 1

/-- `mqtt_parse_msg_id`, which returns the low byte of the identifier; the offset it computes is a
byte, too. -/
def mqttParseMsgId (buf : Mem) : UInt8 :=
  let type := buf 0 &&& 0xF0
  let qos := (buf 0 &&& 0x06) >>> 1
  let rlb := mqttNumRemLenBytes buf
  if 0x30 ≤ type ∧ type ≤ 0xB0 then
    if type = 0x30 then
      if qos ≠ 0 then
        let offset : UInt8 := buf (1 + rlb + 1) + UInt8.ofNat (1 + rlb + 2)
        buf (offset.toNat + 1)
      else 0
    else buf (1 + rlb + 1)
  else 0

/-! ## The phases of `client_read_message` -/

/-- Where a phase leaves the function: it returns, or goes on with the next phase. -/
structure Phase where
  ret : Option Int
  packet : InPacket
  sock : Sock

/-- The command byte. -/
def readCommand (p : InPacket) (k : Sock) : Phase :=
  if p.command = 0 then
    match k.read 1 with
    | (.got bs, k) => ⟨none, { p with command := bs.headD 0 }, k⟩
    | (.again, k) => ⟨some 0, p, k⟩
    | (.eof, k) => ⟨some (-1), p, k⟩
    | (.error, k) => ⟨some (-1), p, k⟩
  else
    ⟨none, p, k⟩

/-- One byte of the remaining length; `remByteSize` counts them downwards until the last one. -/
def lengthByte (p : InPacket) (b : UInt8) : InPacket :=
  let remLength := p.remLength ||| ((b &&& 0x7F).toNat <<< (7 * (-p.remByteSize).toNat))
  let remByteSize := p.remByteSize - 1
  { p with
    remLength := remLength
    remByteSize := if remByteSize ≤ -4 ∨ b &&& 0x80 = 0 then -remByteSize else remByteSize }

/-- The `do ... while` that reads the remaining length: `rc`, what is known of the packet, and the
socket. -/
def readLength (p : InPacket) : List UInt8 → List ReadOutcome → Int × InPacket × Sock
  | out, [] => (0, p, ⟨out, []⟩)
  | out, .again :: sched => (0, p, ⟨out, sched⟩)
  | out, .eof :: sched => (-1, p, ⟨out, sched⟩)
  | out, .error :: sched => (-1, p, ⟨out, sched⟩)
  | [], .data _ :: sched => (0, p, ⟨[], sched⟩)
  | b :: out, .data _ :: sched =>
    if (lengthByte p b).remByteSize ≤ 0 then readLength (lengthByte p b) out sched
    else (1, lengthByte p b, ⟨out, sched⟩)

/-- Room for the packet, with its fixed header. The code writes the header whatever `dlen` is. -/
def prepare (p : InPacket) : InPacket :=
  { p with
    pos := 1 + p.remByteSize
    dlen := 1 + p.remByteSize + p.remLength
    data := (p.data.write 0 [p.command]).write 1 (mqttRemainlen2bytes p.remLength)
    remNeedLength := p.remLength }

/-- The remaining length. An `rc` of 0 (`EAGAIN` in the middle of the field) does not leave the
function: the packet is prepared with what is known of its length. -/
def readHeader (p : InPacket) (k : Sock) : Phase :=
  if p.remByteSize ≤ 0 then
    let (rc, p, k) := readLength p k.outstanding k.sched
    if rc = -1 then ⟨some (-1), p, k⟩ else ⟨none, prepare p, k⟩
  else
    ⟨none, p, k⟩

/-- The payload loop. The end of the stream sets `rc` and reads again, for ever: no result. -/
def readPayload (p : InPacket) (out : List UInt8) : List ReadOutcome → Option Phase
  | [] =>
    if p.remNeedLength ≤ 0 then some ⟨none, p, ⟨out, []⟩⟩
    else if p.dlen < p.pos + p.remNeedLength then some ⟨some (-402), p, ⟨out, []⟩⟩
    else some ⟨some 0, p, ⟨out, []⟩⟩
  | o :: sched =>
    if p.remNeedLength ≤ 0 then some ⟨none, p, ⟨out, o :: sched⟩⟩
    else if p.dlen < p.pos + p.remNeedLength then some ⟨some (-402), p, ⟨out, o :: sched⟩⟩
    else
      match o with
      | .again => some ⟨some 0, p, ⟨out, sched⟩⟩
      | .error => some ⟨some (-1), p, ⟨out, sched⟩⟩
      | .eof => none
      | .data m =>
        if out = [] then some ⟨some 0, p, ⟨out, sched⟩⟩
        else
          let bs := (out.take p.remNeedLength.toNat).take (m + 1)
          readPayload { p with
            data := p.data.write p.pos bs
            pos := p.pos + bs.length
            remNeedLength := p.remNeedLength - bs.length } (out.drop bs.length) sched

/-- The answer to a packet, if it has one. -/
def reply (buff : Mem) : Option Message :=
  let type := buff 0 &&& 0xF0
  if type = 0x10 then some ⟨[0x20, 0x02, 0x00, 0x00], by simp⟩
  else if type = 0x30 then
    if (buff 0 &&& 0x06) >>> 1 = 1 then
      some ⟨[0x40, 0x02, 0x00, mqttParseMsgId buff], by simp⟩
    else none
  else if type = 0x80 then some ⟨[0x90, 0x03, 0x00, mqttParseMsgId buff, 0x01], by simp⟩
  else if type = 0xC0 then some ⟨[0xD0, 0x00], by simp⟩
  else none

/-- The `switch` on a packet that is complete, and the reset behind it. The answer is built in the
packet's own buffer. -/
def processPacket (s : Session) (p : InPacket) (alloc : Bool) : Option Session :=
  let reset : InPacket :=
    { p with pos := 0, command := 0, remByteSize := 0, remLength := 0, remNeedLength := 0 }
  match reply p.data with
  | none => some { s with inpacket := reset }
  | some r =>
    (mqttSessionPushPacket s r alloc).map fun s =>
      { s with inpacket := { reset with data := p.data.write 0 r.1 } }

/-- What a call of `client_read_message` returns and leaves behind: the session, the socket, and the
packet it processed, as `log_hex(pack->data, pack->pos, "recv-mqtt:")` shows it. -/
structure ReadMessage where
  ret : Int
  session : Session
  sock : Sock
  processed : List (List UInt8)

/-- The function from the payload on. -/
def readBody (s : Session) (p : InPacket) (k : Sock) (alloc : Bool) : Option ReadMessage := do
  let d ← readPayload p k.outstanding k.sched
  match d.ret with
  | some rc => some ⟨rc, { s with inpacket := d.packet }, d.sock, []⟩
  | none => do
    let s ← processPacket s d.packet alloc
    some ⟨0, s, d.sock, [d.packet.data.bytes 0 d.packet.pos.toNat]⟩

/-- The function from the remaining length on. -/
def readLengthAndBody (s : Session) (p : InPacket) (k : Sock) (alloc : Bool) :
    Option ReadMessage :=
  let h := readHeader p k
  match h.ret with
  | some rc => some ⟨rc, { s with inpacket := h.packet }, h.sock, []⟩
  | none => readBody s h.packet h.sock alloc

/-- `client_read_message`. No result where it does not return. -/
def clientReadMessage (s : Session) (k : Sock) (alloc : Bool) : Option ReadMessage :=
  let c := readCommand s.inpacket k
  match c.ret with
  | some rc => some ⟨rc, { s with inpacket := c.packet }, c.sock, []⟩
  | none => readLengthAndBody s c.packet c.sock alloc

end ProgrammingPath.Mqtt
