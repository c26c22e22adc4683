import Mathlib.Algebra.Group.Nat.Defs
import ProgrammingPath.Lib.StreamSocket

/-!
# The packets of the server (`CJProto_server.c`)

A packet is its type, a length in digits to the base 128, the lowest first, and so many bytes. The socket does
not block: `loop_handle_write` and `loop_handle_read` come back when they would have to wait, and go on where
they were when they are called again. `loop_handle_write` has what is left to be written in the packet itself;
`loop_handle_read` counts the digits that it has read down from 0 and turns the number round when there are
four, which is how it knows the next time that the length is there. With fewer digits it does not know.
-/

namespace ProgrammingPath.CjProto

open ProgrammingPath.Lib

/-- `struct cjprotot_packet`. What lies behind `rempos` in `remdata` was not written yet. -/
structure Packet where
  type : Nat
  remlength : Nat
  remdata : List UInt8
  remlengthSize : Int
  remreadlen : Nat
  rempos : Nat

/-- A packet after `memset`. -/
def Packet.zero : Packet := ⟨0, 0, [], 0, 0, 0⟩

/-! ## Writing -/

/-- What the socket says to a `write`: that it took so much, try again, or an error. -/
inductive Answer
  | took (n : Nat)
  | again
  | error
  deriving DecidableEq

/-- The `write` of one byte: done, or what the function then returns. -/
def write (answers : List Answer) : Option Int × List Answer :=
  match answers with
  | [] => (some 0, [])
  | .took 0 :: answers => (some (-1), answers)
  | .took _ :: answers => (none, answers)
  | .again :: answers => (some 0, answers)
  | .error :: answers => (some (-1), answers)

/-- What a call leaves behind: what it returns (`none` while it goes on), what went out, the packet it was at
and what the socket will say next. -/
structure Written where
  ret : Option Int
  out : List UInt8
  packet : Packet
  answers : List Answer

/-- The byte of the length that is written next. -/
def lengthByte (remlength : Nat) : UInt8 :=
  let byte := UInt8.ofNat (remlength &&& 0x7F)
  if remlength &&& 0x80 > 0 then byte ||| 0x80 else byte

/-- `while (packet->remlength > 0)`. A socket that says nothing more says try again. -/
def writeLength (packet : Packet) : List Answer → Written
  | [] => if packet.remlength = 0 then ⟨none, [], packet, []⟩ else ⟨some 0, [], packet, []⟩
  | answer :: answers =>
    if packet.remlength = 0 then ⟨none, [], packet, answer :: answers⟩
    else
      match write (answer :: answers) with
      | (some ret, _) => ⟨some ret, [], packet, answers⟩
      | (none, _) =>
        let w := writeLength { packet with remlength := packet.remlength >>> 7 } answers
        { w with out := lengthByte packet.remlength :: w.out }

/-- One packet. Of its data nothing is written. -/
def writePacket (packet : Packet) (answers : List Answer) : Written :=
  if packet.type ≠ 0 then
    match write answers with
    | (some ret, answers) => ⟨some ret, [], packet, answers⟩
    | (none, answers) =>
      let w := writeLength { packet with type := 0 } answers
      { w with out := UInt8.ofNat packet.type :: w.out }
  else writeLength packet answers

/-- `loop_handle_write`: what it returns, what went out, the packets that are left, and what the socket will
say next. -/
def loopHandleWrite : List Packet → List Answer → Int × List UInt8 × List Packet × List Answer
  | [], answers => (0, [], [], answers)
  | packet :: packets, answers =>
    match writePacket packet answers with
    | ⟨some ret, out, packet, answers⟩ => (ret, out, packet :: packets, answers)
    | ⟨none, out, _, answers⟩ =>
      let (ret, out', packets, answers) := loopHandleWrite packets answers
      (ret, out ++ out', packets, answers)

/-- What has gone out after so many calls, and the packets that are left. -/
def writes : Nat → List Packet → List Answer → List UInt8 × List Packet
  | 0, packets, _ => ([], packets)
  | calls + 1, packets, answers =>
    let (_, out, packets, answers) := loopHandleWrite packets answers
    let (out', packets) := writes calls packets answers
    (out ++ out', packets)

/-! ## Reading -/

/-- What becomes of a part of `loop_handle_read`: it goes on, or the function returns. -/
inductive Step
  | go (packet : Packet) (s : Sock)
  | ret (code : Int) (packet : Packet) (s : Sock)

/-- The `read` of one byte. -/
def readByte (packet : Packet) (s : Sock) (next : UInt8 → Sock → Step) : Step :=
  match s.recv 1 with
  | none => .ret 0 packet s
  | some (.again, s) => .ret 0 packet s
  | some (.error, s) => .ret (-1) packet s
  | some (.bytes [], s) => .ret (-1) packet s
  | some (.bytes (byte :: _), s) => next byte s

/-- A byte of the length is put into the packet. -/
def Packet.addByte (packet : Packet) (byte : UInt8) : Packet :=
  let size := packet.remlengthSize - 1
  let digit := (byte &&& 0x7F).toNat
  { packet with
    remlength :=
      if size = -1 then digit
      else if size = -2 then digit <<< 7 ||| packet.remlength
      else if size = -3 then digit <<< (7 * 2) ||| packet.remlength
      else if size = -4 then digit <<< (7 * 3) ||| packet.remlength
      else packet.remlength
    remlengthSize := if size ≤ -4 then size * -1 else size }

/-- The loop over the bytes of the length. The fourth one is the last, whatever its highest bit. -/
def readLength : Nat → Packet → Sock → Step
  | 0, packet, s => .go packet s
  | left + 1, packet, s =>
    readByte packet s fun byte s =>
      let packet := packet.addByte byte
      if byte &&& 0x80 ≠ 0 ∧ packet.remlengthSize ≤ 0 then readLength left packet s else .go packet s

/-- The loop over the payload; every turn of it reads something, or it returns. -/
def readPayload : Nat → Packet → Sock → Step
  | 0, packet, s => .go packet s
  | turns + 1, packet, s =>
    if packet.remreadlen = 0 then .go packet s
    else
      match s.recv packet.remreadlen with
      | none => .ret 0 packet s
      | some (.again, s) => .ret 0 packet s
      | some (.error, s) => .ret (-1) packet s
      | some (.bytes [], s) => .ret (-1) packet s
      | some (.bytes c, s) =>
        readPayload turns
          { packet with
            remdata := packet.remdata.take packet.rempos ++ c
            rempos := packet.rempos + c.length
            remreadlen := packet.remreadlen - c.length } s

def Step.bind (step : Step) (next : Packet → Sock → Step) : Step :=
  match step with
  | .go packet s => next packet s
  | .ret code packet s => .ret code packet s

/-- The type, if it was not read yet. -/
def readType (packet : Packet) (s : Sock) : Step :=
  if packet.type = 0 then readByte packet s fun byte s => .go { packet with type := byte.toNat } s
  else .go packet s

/-- The length, if it is not known to be there, and the room for the payload. -/
def readHead (packet : Packet) (s : Sock) : Step :=
  if packet.remlengthSize ≤ 0 then
    (readLength 4 packet s).bind fun packet s =>
      .go { packet with remdata := [], remreadlen := packet.remlength, rempos := 0 } s
  else .go packet s

/-- `loop_handle_read`, up to the packet that it hands on: then it goes on, here, and will return -1. -/
def loopHandleRead (packet : Packet) (s : Sock) : Step :=
  (readType packet s).bind fun packet s =>
    (readHead packet s).bind fun packet s => readPayload packet.remreadlen packet s

/-- The calls for one client: the packet that is handed on, and the socket then. The client is closed when a call
does not return 0. -/
def reads : Nat → Packet → Sock → Option (Packet × Sock)
  | 0, _, _ => none
  | calls + 1, packet, s =>
    match loopHandleRead packet s with
    | .go packet s => some (packet, s)
    | .ret code packet s => if code = 0 then reads calls packet s else none

/-! ## What is written -/

/-- The bytes of the length of a packet. -/
def lengthBytes (n : Nat) : List UInt8 :=
  if n = 0 then [] else lengthByte n :: lengthBytes (n >>> 7)
termination_by n
decreasing_by
  rw [Nat.shiftRight_eq_div_pow]
  omega

/-- What is left to be written of a packet. -/
def Packet.pending (packet : Packet) : List UInt8 :=
  (if packet.type ≠ 0 then [UInt8.ofNat packet.type] else []) ++ lengthBytes packet.remlength

theorem lengthBytes_zero : lengthBytes 0 = [] := by
  rw [lengthBytes]
  exact if_pos rfl

theorem lengthBytes_shift {n : Nat} (h : n ≠ 0) : lengthBytes n = lengthByte n :: lengthBytes (n >>> 7) := by
  rw [lengthBytes]
  exact if_neg h

theorem lengthBytes_pos {n : Nat} (h : n ≠ 0) : lengthBytes n = lengthByte n :: lengthBytes (n / 128) := by
  have hshift : n >>> 7 = n / 128 := Nat.shiftRight_eq_div_pow n 7
  exact hshift ▸ lengthBytes_shift h

theorem writeLength_pending (packet : Packet) (answers : List Answer) :
    (writeLength packet answers).out ++ lengthBytes (writeLength packet answers).packet.remlength =
        lengthBytes packet.remlength ∧
      (writeLength packet answers).packet.type = packet.type ∧
      ((writeLength packet answers).ret = none → (writeLength packet answers).packet.remlength = 0) := by
  induction answers generalizing packet with
  | nil =>
    unfold writeLength
    by_cases h : packet.remlength = 0
    · rw [if_pos h]
      exact ⟨rfl, rfl, fun _ => h⟩
    · rw [if_neg h]
      exact ⟨rfl, rfl, fun hret => absurd hret (Option.some_ne_none _)⟩
  | cons answer answers ih =>
    unfold writeLength
    by_cases h : packet.remlength = 0
    · rw [if_pos h]
      exact ⟨rfl, rfl, fun _ => h⟩
    · rw [if_neg h]
      split
      · exact ⟨rfl, rfl, fun hret => absurd hret (Option.some_ne_none _)⟩
      · obtain ⟨hout, htype, hret⟩ := ih { packet with remlength := packet.remlength >>> 7 }
        refine ⟨?_, htype, hret⟩
        rw [lengthBytes_shift h, ← hout]
        rfl

theorem writePacket_pending (packet : Packet) (answers : List Answer) :
    (writePacket packet answers).out ++ (writePacket packet answers).packet.pending = packet.pending ∧
      ((writePacket packet answers).ret = none → (writePacket packet answers).packet.pending = []) := by
  have hlength (packet : Packet) (hzero : packet.type = 0) (answers : List Answer) :
      (writeLength packet answers).out ++ (writeLength packet answers).packet.pending =
          lengthBytes packet.remlength ∧
        ((writeLength packet answers).ret = none → (writeLength packet answers).packet.pending = []) := by
    obtain ⟨hout, htype, hret⟩ := writeLength_pending packet answers
    unfold Packet.pending
    rw [htype, if_neg (not_not.mpr hzero), List.nil_append]
    refine ⟨hout, fun hnone => ?_⟩
    rw [hret hnone, lengthBytes_zero]
  unfold writePacket
  by_cases h : packet.type ≠ 0
  · rw [if_pos h]
    split
    · exact ⟨rfl, fun hret => absurd hret (Option.some_ne_none _)⟩
    · next answers' _ =>
      obtain ⟨hout, hret⟩ := hlength { packet with type := 0 } rfl answers'
      refine ⟨?_, hret⟩
      unfold Packet.pending at hout ⊢
      rw [if_pos h, List.singleton_append, ← hout]
      rfl
  · rw [if_neg h]
    obtain ⟨hout, hret⟩ := hlength packet (not_not.mp h) answers
    refine ⟨?_, hret⟩
    have hpending : packet.pending = lengthBytes packet.remlength := by
      unfold Packet.pending
      rw [if_neg h, List.nil_append]
    rw [hpending]
    exact hout

/-- What has gone out and what is left to be written are what was left before. -/
theorem loopHandleWrite_pending (packets : List Packet) (answers : List Answer) :
    (loopHandleWrite packets answers).2.1 ++ (loopHandleWrite packets answers).2.2.1.flatMap Packet.pending =
      packets.flatMap Packet.pending := by
  induction packets generalizing answers with
  | nil => rfl
  | cons packet packets ih =>
    obtain ⟨hout, hret⟩ := writePacket_pending packet answers
    unfold loopHandleWrite
    rw [List.flatMap_cons, ← hout]
    split
    · next heq =>
      rw [heq]
      exact (List.append_assoc ..).symm
    · next heq =>
      rw [heq] at hret ⊢
      rw [hret rfl, List.append_nil, ← ih]
      exact List.append_assoc ..

theorem writes_pending (calls : Nat) (packets : List Packet) (answers : List Answer) :
    (writes calls packets answers).1 ++ (writes calls packets answers).2.flatMap Packet.pending =
      packets.flatMap Packet.pending := by
  induction calls generalizing packets answers with
  | zero => rfl
  | succ calls ih =>
    rw [← loopHandleWrite_pending packets answers]
    rcases hw : loopHandleWrite packets answers with ⟨ret, out, packets', answers'⟩
    have hwrites : writes (calls + 1) packets answers =
        (out ++ (writes calls packets' answers').1, (writes calls packets' answers').2) := by
      rw [writes, hw]
    rw [hwrites, ← ih packets' answers']
    exact List.append_assoc ..

/-- Whatever the socket says, a packet that was written is its type and its length. -/
theorem writes_out {calls : Nat} {packet : Packet} {answers : List Answer} {out : List UInt8}
    (htype : packet.type ≠ 0) (h : writes calls [packet] answers = (out, [])) :
    out = UInt8.ofNat packet.type :: lengthBytes packet.remlength := by
  have hpending := writes_pending calls [packet] answers
  rw [h, List.flatMap_singleton] at hpending
  have hout : out = packet.pending := (List.append_nil out).symm.trans hpending
  rw [hout, Packet.pending, if_pos htype]
  rfl

end ProgrammingPath.CjProto
