import Mathlib.Tactic.NormNum
import Mathlib.Tactic.Tauto
import ProgrammingPath.Lib.Run
import ProgrammingPath.Mqtt.OutQueue
import ProgrammingPath.Mqtt.Reader

/-!
# Reassembling the stream of a client

A client sends packets, and the server reads their bytes in any pieces the kernel cares to hand out.
The state that survives between two calls of `client_read_message` is one of three: between two
packets, inside the remaining length (`InLength`), or inside the payload (`InPayload`). A call that
is interrupted between packets or inside the payload leaves such a state. Inside the remaining length
it goes on and takes what it knows of the length for the length itself; nothing is lost only if that
is not yet 0 and the read that follows gets no byte either (`LengthArrives`).
-/

namespace ProgrammingPath.Mqtt

open ProgrammingPath.Lib

/-! ## Packets and schedules -/

/-- A packet as MQTT has it: a command byte, whose upper half is a type and not 0, and a payload
whose length the four bytes of the remaining length can tell. -/
structure Packet where
  command : UInt8
  payload : List UInt8
  command_ne : command ≠ 0
  length_lt : payload.length < 2 ^ 28

/-- The bytes on the wire. The remaining length is in the form the standard's algorithm gives it,
which `mqtt_remainlen2bytes` implements. -/
def Packet.bytes (q : Packet) : List UInt8 :=
  q.command :: (mqttRemainlen2bytes q.payload.length ++ q.payload)

/-- A readable socket: for each `read` of the call, up to `n + 1` bytes or `EAGAIN`. -/
structure Readable where
  sched : List (Option Nat)
  alloc : Bool

def outcome : Option Nat → ReadOutcome
  | some n => .data n
  | none => .again

/-- A connection: the session, the bytes still to be read and the packets processed so far. -/
structure Conn where
  session : Session
  outstanding : List UInt8
  processed : List (List UInt8)

def Conn.init (now : Int) (outstanding : List UInt8) : Conn :=
  ⟨Session.accepted now, outstanding, []⟩

/-- One call of `client_read_message`; an error ends the session. -/
def Conn.step (c : Conn) (ev : Readable) : Option Conn := do
  let r ← clientReadMessage c.session ⟨c.outstanding, ev.sched.map outcome⟩ ev.alloc
  if r.ret = 0 then
    some ⟨r.session, r.sock.outstanding, c.processed ++ r.processed⟩
  else
    none

/-! ## When the remaining length may be interrupted -/

/-- The next read gets no byte. -/
def silent (out : List UInt8) : List (Option Nat) → Bool
  | some _ :: _ => out.isEmpty
  | _ => true

/-- The bytes of the remaining length arrive one after the other; if one does not, the length so far
is `known` not to be 0 and the read that follows gets nothing. -/
def lengthArrives : Bool → List UInt8 → List (Option Nat) → Bool
  | known, b :: out, some _ :: sched =>
    b &&& 0x80 == 0 || lengthArrives (known || b &&& 0x7F != 0) out sched
  | known, out, sched => known && silent out sched.tail

/-- A call that reads the remaining length is not misled by an interruption. -/
def headerArrives (c : Conn) (ev : Readable) : Bool :=
  if c.session.inpacket.command = 0 then
    match c.outstanding, ev.sched with
    | _ :: out, some _ :: sched => lengthArrives false out sched
    | _, _ => true
  else if c.session.inpacket.remByteSize ≤ 0 then
    lengthArrives (c.session.inpacket.remLength != 0) c.outstanding ev.sched
  else
    true

/-! ## The remaining length -/

theorem remainlenBytes_small {n : Nat} (fuel : Nat) (h : n < 128) :
    remainlenBytes (fuel + 1) n = [UInt8.ofNat n] := by
  have hshift : n >>> 7 = 0 := by
    rw [Nat.shiftRight_eq_div_pow]
    omega
  rw [remainlenBytes, if_pos hshift, Nat.mod_eq_of_lt h]

theorem remainlenBytes_large {n : Nat} (fuel : Nat) (h : 128 ≤ n) :
    remainlenBytes (fuel + 1) n =
      (UInt8.ofNat (n % 128) ||| 0x80) :: remainlenBytes fuel (n / 128) := by
  have hshift : n >>> 7 = n / 128 := Nat.shiftRight_eq_div_pow n 7
  rw [remainlenBytes, hshift, if_neg (by omega)]

theorem length_remainlenBytes_pos (fuel n : Nat) :
    0 < (remainlenBytes (fuel + 1) n).length := by
  rw [remainlenBytes]
  split <;> simp

/-- The last byte of a remaining length: the upper bit is clear. -/
theorem lastByte_bits : ∀ n < 128,
    UInt8.ofNat n &&& 0x80 = 0 ∧ (UInt8.ofNat n &&& 0x7F).toNat = n := by decide +kernel

/-- Any other byte of it: the upper bit is set. -/
theorem innerByte_bits : ∀ n < 128,
    (UInt8.ofNat n ||| 0x80) &&& 0x80 ≠ 0 ∧
      ((UInt8.ofNat n ||| 0x80) &&& 0x7F).toNat = n := by decide +kernel

/-- A digit put above the length read so far. -/
theorem lor_shiftLeft {low digit j : Nat} (h : low < 2 ^ (7 * j)) :
    low ||| (digit <<< (7 * j)) = low + digit * 2 ^ (7 * j) := by
  rw [Nat.or_comm, ← Nat.shiftLeft_add_eq_or_of_lt h, Nat.shiftLeft_eq, Nat.add_comm]

/-- The reader has the command byte and the first `j` bytes of the remaining length of `q`; the bytes
still to come encode `n`. -/
structure InLength (p : InPacket) (q : Packet) (j n : Nat) : Prop where
  command : p.command = q.command
  size : p.remByteSize = -j
  value : q.payload.length = p.remLength + n * 2 ^ (7 * j)
  low : p.remLength < 2 ^ (7 * j)
  high : n * 2 ^ (7 * j) < 2 ^ 28
  le : j ≤ 3
  total : (mqttRemainlen2bytes q.payload.length).length = j + (remainlenBytes (10 - j) n).length

variable {p : InPacket} {q : Packet} {j n m : Nat}

/-- The reader has all of the remaining length. -/
structure LengthRead (p : InPacket) (q : Packet) : Prop where
  command : p.command = q.command
  size : p.remByteSize = (mqttRemainlen2bytes q.payload.length).length
  value : p.remLength = q.payload.length

/-- The last byte completes the length. -/
theorem lengthByte_last (h : InLength p q j n) (hn : n < 128) :
    LengthRead (lengthByte p (UInt8.ofNat n)) q := by
  obtain ⟨hhigh, hlow⟩ := lastByte_bits n hn
  have hj : (- -(j : Int)).toNat = j := by omega
  refine ⟨h.command, ?_, ?_⟩
  · show (if p.remByteSize - 1 ≤ -4 ∨ UInt8.ofNat n &&& 0x80 = 0 then -(p.remByteSize - 1) else _) = _
    have hfuel : 10 - j = 9 - j + 1 := by have := h.le; omega
    rw [if_pos (Or.inr hhigh), h.total, h.size, hfuel, remainlenBytes_small _ hn]
    simp only [List.length_cons, List.length_nil]
    omega
  · show p.remLength ||| ((UInt8.ofNat n &&& 0x7F).toNat <<< (7 * (-p.remByteSize).toNat)) = _
    rw [hlow, h.size, hj, lor_shiftLeft h.low, h.value]

theorem remLength_lengthByte_inner (h : InLength p q j n) :
    (lengthByte p (UInt8.ofNat (n % 128) ||| 0x80)).remLength =
      p.remLength + n % 128 * 2 ^ (7 * j) := by
  obtain ⟨-, hlow⟩ := innerByte_bits (n % 128) (Nat.mod_lt _ (by omega))
  show p.remLength ||| (((UInt8.ofNat (n % 128) ||| 0x80) &&& 0x7F).toNat <<<
    (7 * (-p.remByteSize).toNat)) = _
  rw [hlow, h.size, show (- -(j : Int)).toNat = j by omega, lor_shiftLeft h.low]

/-- Any other byte leaves the reader in the field. -/
theorem lengthByte_inner (h : InLength p q j n) (hn : 128 ≤ n) :
    InLength (lengthByte p (UInt8.ofNat (n % 128) ||| 0x80)) q (j + 1) (n / 128) := by
  obtain ⟨hhigh, -⟩ := innerByte_bits (n % 128) (Nat.mod_lt _ (by omega))
  have hpow : 2 ^ (7 * (j + 1)) = 128 * 2 ^ (7 * j) := by
    rw [Nat.mul_add, pow_add, Nat.mul_comm]
    norm_num
  -- the digits of `n` at the weight of the next byte
  have hdigits : n * 2 ^ (7 * j) = n / 128 * 2 ^ (7 * (j + 1)) + n % 128 * 2 ^ (7 * j) := by
    rw [hpow, ← Nat.mul_assoc, ← Nat.add_mul, Nat.div_add_mod']
  have hdigit : n % 128 * 2 ^ (7 * j) ≤ 127 * 2 ^ (7 * j) :=
    Nat.mul_le_mul_right _ (Nat.le_of_lt_succ (Nat.mod_lt _ (by omega)))
  -- a fourth byte would make the length too large
  have hj3 : j < 3 := by
    by_contra hge
    have hj : j = 3 := by have := h.le; omega
    have := h.high
    rw [hj] at this
    omega
  have hrem := remLength_lengthByte_inner h
  refine ⟨h.command, ?_, ?_, ?_, ?_, hj3, ?_⟩
  · show (if p.remByteSize - 1 ≤ -4 ∨ (UInt8.ofNat (n % 128) ||| 0x80) &&& 0x80 = 0
      then _ else p.remByteSize - 1) = _
    rw [h.size, if_neg (not_or.mpr ⟨by omega, hhigh⟩)]
    omega
  · rw [hrem, h.value]
    omega
  · have := h.low
    rw [hrem, hpow]
    omega
  · have := h.high
    omega
  · have hfuel : 10 - j = 10 - (j + 1) + 1 := by omega
    rw [h.total, hfuel, remainlenBytes_large _ hn, List.length_cons]
    omega

/-- Reading the field: either all of it is read, or the reader is left inside it with a length that
is not 0, and the next read gets nothing. -/
theorem readLength_of_arrives {rest : List UInt8} {sched : List (Option Nat)} (h : InLength p q j n)
    (harr : lengthArrives (p.remLength != 0) (remainlenBytes (10 - j) n ++ rest) sched = true) :
    (∃ (p' : InPacket) (sched' : List (Option Nat)),
        readLength p (remainlenBytes (10 - j) n ++ rest) (sched.map outcome) =
        (1, p', ⟨rest, sched'.map outcome⟩) ∧ LengthRead p' q) ∨
      ∃ (p' : InPacket) (j' n' : Nat) (sched' : List (Option Nat)),
        readLength p (remainlenBytes (10 - j) n ++ rest) (sched.map outcome) =
          (0, p', ⟨remainlenBytes (10 - j') n' ++ rest, sched'.map outcome⟩) ∧
        InLength p' q j' n' ∧ p'.remLength ≠ 0 ∧
        silent (remainlenBytes (10 - j') n' ++ rest) sched' = true := by
  have hle := h.le
  induction sched generalizing p j n with
  | nil =>
    rw [lengthArrives, Bool.and_eq_true] at harr
    · exact Or.inr ⟨p, j, n, [], by simp [readLength], h, by simpa using harr.1, harr.2⟩
    · intro b out _ sched _ hnil
      cases hnil
  | cons o sched ih =>
    have hfuel : 10 - j = 9 - j + 1 := by omega
    cases o with
    | none =>
      rw [lengthArrives, Bool.and_eq_true] at harr
      · exact Or.inr ⟨p, j, n, sched, by simp [readLength, outcome], h, by simpa using harr.1, harr.2⟩
      · intro b out _ sched _ hcons
        cases hcons
    | some k =>
      by_cases hn : n < 128
      · -- the last byte of the field
        have hread := lengthByte_last h hn
        have hpos : ¬(lengthByte p (UInt8.ofNat n)).remByteSize ≤ 0 := by
          rw [hread.size, h.total, hfuel, remainlenBytes_small _ hn]
          simp only [List.length_cons, List.length_nil]
          omega
        refine Or.inl ⟨lengthByte p (UInt8.ofNat n), sched, ?_, hread⟩
        rw [hfuel, remainlenBytes_small _ hn, List.singleton_append, List.map_cons, outcome,
          readLength, if_neg hpos]
      · have hn : 128 ≤ n := by omega
        have hin := lengthByte_inner h hn
        have hsub : 9 - j = 10 - (j + 1) := by omega
        have hneg : (lengthByte p (UInt8.ofNat (n % 128) ||| 0x80)).remByteSize ≤ 0 := by
          rw [hin.size]
          omega
        obtain ⟨hhigh, hlow⟩ := innerByte_bits (n % 128) (Nat.mod_lt _ (by omega))
        -- the length so far is known not to be 0 once one of its digits is not
        have hknown : (p.remLength != 0 || (UInt8.ofNat (n % 128) ||| 0x80) &&& 0x7F != 0) =
            ((lengthByte p (UInt8.ofNat (n % 128) ||| 0x80)).remLength != 0) := by
          have hpos : 0 < 2 ^ (7 * j) := Nat.two_pow_pos _
          have hbyte : (UInt8.ofNat (n % 128) ||| 0x80) &&& 0x7F = 0 ↔ n % 128 = 0 := by
            rw [← UInt8.toNat_inj, hlow]
            rfl
          rw [Bool.eq_iff_iff, remLength_lengthByte_inner h]
          simp only [Bool.or_eq_true, bne_iff_ne, ne_eq, hbyte, Nat.add_eq_zero_iff,
            Nat.mul_eq_zero, hpos.ne', or_false]
          tauto
        rw [hfuel, remainlenBytes_large _ hn, hsub] at harr ⊢
        rw [List.cons_append, lengthArrives, hknown, Bool.or_eq_true] at harr
        rw [List.cons_append, List.map_cons, outcome, readLength, if_pos hneg]
        exact ih hin (harr.resolve_left (by simpa using hhigh)) hin.le

/-! ## The payload -/

/-- The reader has the fixed header of `q` and the first `m` bytes of its payload. -/
structure InPayload (p : InPacket) (q : Packet) (m : Nat) : Prop where
  command : p.command = q.command
  size : 0 < p.remByteSize
  pos : p.pos = 1 + (mqttRemainlen2bytes q.payload.length).length + m
  need : p.remNeedLength = q.payload.length - m
  dlen : p.dlen = 1 + (mqttRemainlen2bytes q.payload.length).length + q.payload.length
  le : m ≤ q.payload.length
  data : p.data.bytes 0 (1 + (mqttRemainlen2bytes q.payload.length).length + m) =
    q.command :: (mqttRemainlen2bytes q.payload.length ++ q.payload.take m)

/-- The header is prepared from a length that was read to its end. -/
theorem prepare_of_lengthRead (h : LengthRead p q) : InPayload (prepare p) q 0 where
  command := h.command
  size := by
    show 0 < p.remByteSize
    rw [h.size]
    exact_mod_cast length_remainlenBytes_pos 9 _
  pos := by
    show 1 + p.remByteSize = _
    rw [h.size]
    simp
  need := by
    show (p.remLength : Int) = _
    rw [h.value]
    simp
  dlen := by
    show 1 + p.remByteSize + p.remLength = _
    rw [h.size, h.value]
  le := Nat.zero_le _
  data := by
    show ((p.data.write 0 [p.command]).write 1 (mqttRemainlen2bytes p.remLength)).bytes 0 _ = _
    rw [h.value, h.command, Nat.add_zero, Mem.bytes_write_append _ (by rfl), List.take_zero,
      List.append_nil]
    rw [show (1 : Nat) = [q.command].length from rfl, Mem.bytes_write_self]
    rfl

/-- More bytes of the payload. -/
theorem inPayload_read (h : InPayload p q m) {bs : List UInt8} (hbs : bs <+: q.payload.drop m) :
    InPayload { p with
      data := p.data.write p.pos bs, pos := p.pos + bs.length
      remNeedLength := p.remNeedLength - bs.length } q (m + bs.length) := by
  have hlen := hbs.length_le
  rw [List.length_drop] at hlen
  have hle := h.le
  refine ⟨h.command, h.size, ?_, ?_, h.dlen, by omega, ?_⟩
  · show p.pos + (bs.length : Int) = _
    rw [h.pos]
    push_cast
    omega
  · show p.remNeedLength - (bs.length : Int) = _
    rw [h.need]
    push_cast
    omega
  · show (p.data.write p.pos bs).bytes 0 _ = _
    have hpos : p.pos = 0 + ((1 + (mqttRemainlen2bytes q.payload.length).length + m : Nat) : Int) := by
      rw [h.pos]
      push_cast
      omega
    rw [← Nat.add_assoc, Mem.bytes_write_append _ hpos, h.data, List.take_add,
      List.prefix_iff_eq_take.mp hbs, List.length_take, List.length_drop,
      Nat.min_eq_left (by omega)]
    simp

theorem InPayload.need_le_zero (h : InPayload p q m) :
    p.remNeedLength ≤ 0 ↔ m = q.payload.length := by
  have := h.le
  rw [h.need]
  omega

theorem InPayload.fits (h : InPayload p q m) : ¬p.dlen < p.pos + p.remNeedLength := by
  have := h.le
  rw [h.dlen, h.pos, h.need]
  omega

/-- The payload loop reads on until the packet is complete or nothing has arrived. -/
theorem readPayload_of_inPayload (more : List UInt8) (sched : List (Option Nat))
    (h : InPayload p q m) :
    ∃ (p' : InPacket) (m' : Nat) (sched' : List ReadOutcome),
      readPayload p (q.payload.drop m ++ more) (sched.map outcome) =
        some ⟨if m' = q.payload.length then none else some 0, p',
          ⟨q.payload.drop m' ++ more, sched'⟩⟩ ∧
      InPayload p' q m' := by
  induction sched generalizing p m with
  | nil =>
    refine ⟨p, m, [], ?_, h⟩
    simp only [List.map_nil, readPayload, h.need_le_zero, if_neg h.fits]
    split <;> rfl
  | cons o sched ih =>
    by_cases hm : m = q.payload.length
    · refine ⟨p, m, (o :: sched).map outcome, ?_, h⟩
      simp only [List.map_cons, readPayload, if_pos (h.need_le_zero.mpr hm), if_pos hm]
    · have hneed : ¬p.remNeedLength ≤ 0 := fun hle => hm (h.need_le_zero.mp hle)
      cases o with
      | none =>
        refine ⟨p, m, sched.map outcome, ?_, h⟩
        simp only [List.map_cons, outcome, readPayload, if_neg hneed, if_neg h.fits, if_neg hm]
      | some k =>
        have hle := h.le
        have hout : q.payload.drop m ++ more ≠ [] := by
          refine List.append_ne_nil_of_left_ne_nil (fun hnil => hm ?_) more
          rw [List.drop_eq_nil_iff] at hnil
          omega
        -- the read stops at the end of the payload
        have htake : (q.payload.drop m ++ more).take p.remNeedLength.toNat = q.payload.drop m := by
          rw [h.need, show ((q.payload.length : Int) - m).toNat = (q.payload.drop m).length by
            rw [List.length_drop]; omega, List.take_left]
        have hbs : (q.payload.drop m).take (k + 1) <+: q.payload.drop m := List.take_prefix _ _
        obtain ⟨p', m', sched', hread, hin⟩ := ih (inPayload_read h hbs)
        refine ⟨p', m', sched', ?_, hin⟩
        rw [← hread]
        simp only [List.map_cons, outcome, readPayload, if_neg hneed, if_neg h.fits, if_neg hout,
          htake]
        rw [List.drop_append_of_le_length hbs.length_le, List.drop_drop]

/-- After an interruption inside the remaining length the payload loop reads nothing. -/
theorem readPayload_of_silent {out : List UInt8} {sched : List (Option Nat)}
    (hneed : p.remLength ≠ 0) (hsilent : silent out sched = true) :
    ∃ sched', readPayload (prepare p) out (sched.map outcome) =
      some ⟨some 0, prepare p, ⟨out, sched'⟩⟩ := by
  have hpos : ¬(prepare p).remNeedLength ≤ 0 := by
    show ¬(p.remLength : Int) ≤ 0
    omega
  have hfit : ¬(prepare p).dlen < (prepare p).pos + (prepare p).remNeedLength := by
    show ¬1 + p.remByteSize + (p.remLength : Int) < 1 + p.remByteSize + p.remLength
    omega
  match sched with
  | [] =>
    exact ⟨[], by simp only [List.map_nil, readPayload, if_neg hpos, if_neg hfit]⟩
  | none :: sched =>
    exact ⟨sched.map outcome, by
      simp only [List.map_cons, outcome, readPayload, if_neg hpos, if_neg hfit]⟩
  | some k :: sched =>
    have hout : out = [] := List.isEmpty_iff.mp hsilent
    exact ⟨sched.map outcome, by
      simp only [List.map_cons, outcome, readPayload, if_neg hpos, if_neg hfit, if_pos hout]⟩

/-! ## One call -/

/-- Reading leaves the output queue alone. -/
theorem Represents.inpacket {s : Session} {w : List (List UInt8 × Nat)} {l : List (Nat × OutPacket)}
    (h : Represents s w l) (p : InPacket) : Represents { s with inpacket := p } w l :=
  ⟨h.linked, h.last, h.curr, h.cells, h.interest⟩

/-- Between two packets. -/
structure Idle (p : InPacket) : Prop where
  command : p.command = 0
  size : p.remByteSize = 0
  length : p.remLength = 0

/-- A packet that was processed leaves the reader between two packets. -/
theorem processPacket_idle {s : Session} {w : List (List UInt8 × Nat)} {l : List (Nat × OutPacket)}
    (hs : Represents s w l) (p : InPacket) (alloc : Bool) :
    ∃ t w' l', processPacket s p alloc = some t ∧ Represents t w' l' ∧ Idle t.inpacket := by
  simp only [processPacket]
  cases reply p.data with
  | none => exact ⟨_, w, l, rfl, hs.inpacket _, rfl, rfl, rfl⟩
  | some r =>
    cases alloc with
    | false => exact ⟨_, w, l, rfl, hs.inpacket _, rfl, rfl, rfl⟩
    | true =>
      obtain ⟨t, l', ht, hrep⟩ := push_represents hs r
      simp only [ht, Option.map_some]
      exact ⟨_, _, l', rfl, hrep.inpacket _, rfl, rfl, rfl⟩

/-- Where a reader is in the stream: `rest` are the packets not yet processed, and `outstanding` the
bytes of them it has not read. -/
inductive Reading (p : InPacket) : List Packet → List UInt8 → Prop
  | between {rest : List Packet} (h : Idle p) : Reading p rest (rest.flatMap Packet.bytes)
  | inLength {q : Packet} {more : List Packet} {j n : Nat} (h : InLength p q j n) :
    Reading p (q :: more)
      (remainlenBytes (10 - j) n ++ (q.payload ++ more.flatMap Packet.bytes))
  | inPayload {q : Packet} {more : List Packet} {m : Nat} (h : InPayload p q m)
    (hm : m ≠ q.payload.length) :
    Reading p (q :: more) (q.payload.drop m ++ more.flatMap Packet.bytes)

/-- What a call returns: it stays inside the first packet of `rest`, or processes it. -/
def Returns (r : Option ReadMessage) (rest : List Packet) : Prop :=
  ∃ m done rest' w l, r = some m ∧ m.ret = 0 ∧ rest = done ++ rest' ∧
    m.processed = done.map Packet.bytes ∧ Represents m.session w l ∧
    Reading m.session.inpacket rest' m.sock.outstanding

variable {s : Session} {w : List (List UInt8 × Nat)} {l : List (Nat × OutPacket)}
  {rest more : List Packet} {sched : List (Option Nat)}

/-- From inside the payload. -/
theorem readBody_returns (hs : Represents s w l) (h : InPayload p q m) (alloc : Bool) :
    Returns (readBody s p ⟨q.payload.drop m ++ more.flatMap Packet.bytes, sched.map outcome⟩ alloc)
      (q :: more) := by
  obtain ⟨p', m', sched', hread, hin⟩ :=
    readPayload_of_inPayload (more.flatMap Packet.bytes) sched h
  simp only [readBody, hread, Option.bind_eq_bind, Option.bind_some]
  by_cases hm : m' = q.payload.length
  · -- the packet is complete
    obtain ⟨t, w', l', ht, hrep, hidle⟩ := processPacket_idle hs p' alloc
    have hbytes : p'.data.bytes 0 p'.pos.toNat = q.bytes := by
      have hdata := hin.data
      rw [hm, List.take_length] at hdata
      rw [hin.pos, hm, Packet.bytes, ← hdata]
      congr 1
    simp only [hm, if_true, ht, Option.bind_some, hbytes]
    refine ⟨_, [q], more, w', l', rfl, rfl, rfl, rfl, hrep, ?_⟩
    rw [List.drop_length, List.nil_append]
    exact .between hidle
  · simp only [if_neg hm]
    exact ⟨_, [], q :: more, w, l, rfl, rfl, rfl, rfl, hs.inpacket _, .inPayload hin hm⟩

/-- From inside the remaining length. -/
theorem readLengthAndBody_returns (hs : Represents s w l) (h : InLength p q j n)
    (harr : lengthArrives (p.remLength != 0)
      (remainlenBytes (10 - j) n ++ (q.payload ++ more.flatMap Packet.bytes)) sched = true)
    (alloc : Bool) :
    Returns (readLengthAndBody s p
      ⟨remainlenBytes (10 - j) n ++ (q.payload ++ more.flatMap Packet.bytes), sched.map outcome⟩
      alloc) (q :: more) := by
  have hsize : p.remByteSize ≤ 0 := by
    rw [h.size]
    omega
  rcases readLength_of_arrives h harr with
    ⟨p', sched', hread, hlen⟩ | ⟨p', j', n', sched', hread, hin, hne, hsilent⟩
  · simp only [readLengthAndBody, readHeader, if_pos hsize, hread]
    exact readBody_returns (m := 0) hs (prepare_of_lengthRead hlen) alloc
  · obtain ⟨sched'', hpay⟩ := readPayload_of_silent hne hsilent
    have hprep : InLength (prepare p') q j' n' :=
      ⟨hin.command, hin.size, hin.value, hin.low, hin.high, hin.le, hin.total⟩
    have hrc : ¬(0 : Int) = -1 := by decide
    simp only [readLengthAndBody, readHeader, if_pos hsize, hread, if_neg hrc, readBody, hpay,
      Option.bind_eq_bind, Option.bind_some]
    exact ⟨_, [], q :: more, w, l, rfl, rfl, rfl, rfl, hs.inpacket _, .inLength hprep⟩

/-- Inside a packet the command byte is known. -/
theorem readCommand_of_ne {k : Sock} (h : p.command ≠ 0) : readCommand p k = ⟨none, p, k⟩ := by
  rw [readCommand, if_neg h]

/-- The command byte of the next packet opens its remaining length. -/
theorem inLength_of_idle (h : Idle p) (q : Packet) :
    InLength { p with command := q.command } q 0 q.payload.length where
  command := rfl
  size := by simpa using h.size
  value := by simp [h.length]
  low := by simp [h.length]
  high := by simpa using q.length_lt
  le := Nat.zero_le _
  total := by rw [Nat.zero_add, mqttRemainlen2bytes]

/-- From between two packets. -/
theorem clientReadMessage_idle (hs : Represents s w l) (h : Idle s.inpacket)
    (harr : ∀ q more k sched', rest = q :: more → sched = some k :: sched' →
      lengthArrives false (mqttRemainlen2bytes q.payload.length ++
        (q.payload ++ more.flatMap Packet.bytes)) sched' = true) (alloc : Bool) :
    Returns (clientReadMessage s ⟨rest.flatMap Packet.bytes, sched.map outcome⟩ alloc) rest := by
  -- without a byte the call returns at once
  have hwait : ∀ sched', readCommand s.inpacket ⟨rest.flatMap Packet.bytes, sched.map outcome⟩ =
      ⟨some 0, s.inpacket, ⟨rest.flatMap Packet.bytes, sched'⟩⟩ →
      Returns (clientReadMessage s ⟨rest.flatMap Packet.bytes, sched.map outcome⟩ alloc) rest := by
    intro sched' hcmd
    simp only [clientReadMessage, hcmd]
    exact ⟨_, [], rest, w, l, rfl, rfl, rfl, rfl, hs.inpacket _, .between h⟩
  match sched, rest with
  | [], rest => exact hwait [] (by simp [readCommand, h.command, Sock.read])
  | none :: sched, rest =>
    exact hwait (sched.map outcome) (by simp [readCommand, h.command, Sock.read, outcome])
  | some k :: sched, [] =>
    exact hwait (sched.map outcome) (by simp [readCommand, h.command, Sock.read, outcome])
  | some k :: sched, q :: more =>
    have hcmd : readCommand s.inpacket
        ⟨(q :: more).flatMap Packet.bytes, (some k :: sched).map outcome⟩ =
        ⟨none, { s.inpacket with command := q.command },
          ⟨mqttRemainlen2bytes q.payload.length ++ (q.payload ++ more.flatMap Packet.bytes),
            sched.map outcome⟩⟩ := by
      simp [readCommand, h.command, Sock.read, outcome, Packet.bytes]
    simp only [clientReadMessage, hcmd]
    have hin := inLength_of_idle h q
    have harr' := harr q more k sched rfl rfl
    refine readLengthAndBody_returns hs hin ?_ alloc
    rw [show (({ s.inpacket with command := q.command } : InPacket).remLength != 0) = false by
      simp [h.length]]
    exact harr'

/-- **A call.** Wherever the reader is, a call whose remaining length is not interrupted badly
returns, and has processed exactly the packets that are no longer outstanding. -/
theorem clientReadMessage_returns {out : List UInt8} {processed : List (List UInt8)}
    (hs : Represents s w l) (h : Reading s.inpacket rest out) {ev : Readable}
    (harr : headerArrives ⟨s, out, processed⟩ ev = true) :
    Returns (clientReadMessage s ⟨out, ev.sched.map outcome⟩ ev.alloc) rest := by
  cases h with
  | between h =>
    refine clientReadMessage_idle hs h (fun q more k sched' hrest hsched => ?_) ev.alloc
    simpa [headerArrives, h.command, hrest, hsched, Packet.bytes] using harr
  | @inLength q more j n h =>
    have hcmd : s.inpacket.command ≠ 0 := h.command ▸ q.command_ne
    have hsize : s.inpacket.remByteSize ≤ 0 := by
      rw [h.size]
      omega
    simp only [clientReadMessage, readCommand_of_ne hcmd]
    simp only [headerArrives, if_neg hcmd, if_pos hsize] at harr
    exact readLengthAndBody_returns hs h harr ev.alloc
  | @inPayload q more m h hm =>
    have hcmd : s.inpacket.command ≠ 0 := h.command ▸ q.command_ne
    have hsize : ¬s.inpacket.remByteSize ≤ 0 := by
      have := h.size
      omega
    simp only [clientReadMessage, readCommand_of_ne hcmd, readLengthAndBody, readHeader, if_neg hsize]
    exact readBody_returns hs h ev.alloc

/-! ## Whole runs -/

/-- The packets `all` are those processed so far and those the reader still has before it. -/
def Reassembles (c : Conn) (all : List Packet) : Prop :=
  ∃ done rest w l, all = done ++ rest ∧ c.processed = done.map Packet.bytes ∧
    Represents c.session w l ∧ Reading c.session.inpacket rest c.outstanding

theorem reassembles_init (now : Int) (all : List Packet) :
    Reassembles (Conn.init now (all.flatMap Packet.bytes)) all :=
  ⟨[], all, [], [], rfl, rfl, represents_accepted now, .between ⟨rfl, rfl, rfl⟩⟩

theorem reassembles_step {c : Conn} {all : List Packet} {ev : Readable} (h : Reassembles c all)
    (harr : headerArrives c ev = true) : ∃ c', c.step ev = some c' ∧ Reassembles c' all := by
  obtain ⟨done, rest, w, l, rfl, hproc, hs, hread⟩ := h
  obtain ⟨m, done', rest', w', l', hm, hret, rfl, hproc', hs', hread'⟩ :=
    clientReadMessage_returns hs hread harr
  refine ⟨⟨m.session, m.sock.outstanding, c.processed ++ m.processed⟩, ?_,
    done ++ done', rest', w', l', ?_, ?_, hs', hread'⟩
  · simp only [Conn.step, hm, Option.bind_eq_bind, Option.bind_some, hret, if_true]
  · rw [List.append_assoc]
  · rw [hproc, hproc', List.map_append]

/-- When everything was read, everything was processed. -/
theorem Reassembles.processed_eq {c : Conn} {all : List Packet} (h : Reassembles c all)
    (hout : c.outstanding = []) : c.processed = all.map Packet.bytes := by
  obtain ⟨done, rest, w, l, rfl, hproc, -, hread⟩ := h
  rw [hout] at hread
  generalize hnil : ([] : List UInt8) = out at hread
  cases hread with
  | between h =>
    cases rest with
    | nil => rw [hproc, List.append_nil]
    | cons q more => simp [Packet.bytes] at hnil
  | @inLength q more j n h =>
    -- the reader is still waiting for a byte of the length
    have hfuel : 10 - j = 9 - j + 1 := by
      have := h.le
      omega
    have hpos := length_remainlenBytes_pos (9 - j) n
    have hlen := congrArg List.length hnil
    rw [hfuel, List.length_append, List.length_nil] at hlen
    omega
  | @inPayload q more m h hm =>
    have hle := h.le
    have hlen := congrArg List.length hnil
    rw [List.length_append, List.length_drop] at hlen
    simp only [List.length_nil] at hlen
    omega

theorem run_reassembles {c : Conn} {all : List Packet} {evs : List Readable}
    (h : Reassembles c all)
    (harr : Meets Conn.step (fun c ev => headerArrives c ev = true) c evs) :
    ∃ c', run Conn.step c evs = some c' ∧ Reassembles c' all := by
  induction evs generalizing c with
  | nil => exact ⟨c, rfl, h⟩
  | cons ev evs ih =>
    obtain ⟨m, hm, hre⟩ := reassembles_step h harr.head
    obtain ⟨c', hrun, hre'⟩ := ih hre (harr.tail hm)
    exact ⟨c', run_cons_eq_some.mpr ⟨m, hm, hrun⟩, hre'⟩

/-- `PINGREQ`. -/
def pingreq : Packet := ⟨0xC0, [], by decide, by decide⟩

/-- `PUBLISH` of one letter on the topic `a/b`. -/
def publish : Packet := ⟨0x30, [0x00, 0x03, 0x61, 0x2F, 0x62, 0x78], by decide, by decide⟩

end ProgrammingPath.Mqtt
