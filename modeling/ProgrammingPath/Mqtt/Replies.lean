import ProgrammingPath.Mqtt.Reassembly

/-!
# What a client is answered

The answer to a packet is built at the head of the buffer the packet is in, and the topic and the
message of a publication are read from that buffer afterwards. The offset of the message and the
packet identifier are bytes where the packet has sixteen bits. `Served` says what a client expects of
a packet it sent, and `served_iff` for which packets it gets that.
-/

namespace ProgrammingPath.Mqtt

open ProgrammingPath.Lib

/-! ## Topic and message -/

/-- The loop of `mqtt_parse_rem_len`, for at most `fuel` bytes; `multiplier` and `value` have sixteen
bits. -/
def parseRemLenLoop (buf : Mem) : Nat → Int → UInt16 → UInt16 → Option UInt16
  | 0, _, _, _ => none
  | fuel + 1, pos, multiplier, value =>
    let digit := buf pos
    if digit &&& 128 ≠ 0 then
      parseRemLenLoop buf fuel (pos + 1) (multiplier * 128)
        (value + (digit &&& 127).toUInt16 * multiplier)
    else
      some (value + (digit &&& 127).toUInt16 * multiplier)

/-- `mqtt_parse_rem_len`. The field was written by `mqtt_remainlen2bytes`, at most ten bytes. -/
def mqttParseRemLen (buf : Mem) : Option UInt16 := parseRemLenLoop buf 10 1 1 0

/-- `mqtt_parse_pub_topic_ptr`: the length of the topic, and its offset unless that is `NULL`. -/
def mqttParsePubTopicPtr (buf : Mem) : UInt16 × Option Nat :=
  if buf 0 &&& 0xF0 = 0x30 then
    let rlb := mqttNumRemLenBytes buf
    ((buf (1 + rlb)).toUInt16 <<< 8 ||| (buf (1 + rlb + 1)).toUInt16, some (1 + rlb + 2))
  else
    (0, none)

/-- `mqtt_parse_pub_msg_ptr`: the length of the message and its offset, which is a byte; the upper
byte of the topic length is shifted out of it. -/
def mqttParsePubMsgPtr (buf : Mem) : Option (UInt16 × Option UInt8) :=
  if buf 0 &&& 0xF0 = 0x30 then do
    let rlb := mqttNumRemLenBytes buf
    let topic : UInt8 := buf (1 + rlb + 1) + UInt8.ofNat (1 + rlb + 2)
    let offset : UInt8 := if (buf 0 &&& 0x06) >>> 1 ≠ 0 then topic + 2 else topic
    let remLen ← mqttParseRemLen buf
    some (remLen - (offset.toUInt16 - UInt16.ofNat (rlb + 1)), some offset)
  else
    some (0, none)

/-- `memcpy` of `len` bytes from a pointer into the buffer. -/
def copied (buf : Mem) (len : UInt16) : Option Nat → List UInt8
  | none => []
  | some off => buf.bytes off len.toNat

/-- The `topic` and the `msg` that the `PUBLISH` branch copies out of the buffer. -/
def topicAndMessage (buf : Mem) : Option (List UInt8 × List UInt8) := do
  let topic := mqttParsePubTopicPtr buf
  let msg ← mqttParsePubMsgPtr buf
  some (copied buf topic.1 topic.2, copied buf msg.1 (msg.2.map UInt8.toNat))

/-- What a call took out of a publication. The branch copies after it built its answer, and what it
copies from is left in the session. -/
def ReadMessage.published (m : ReadMessage) : Option (List UInt8 × List UInt8) :=
  match m.processed with
  | [bs] => if bs.headD 0 &&& 0xF0 = 0x30 then topicAndMessage m.session.inpacket.data else none
  | _ => none

/-! ## What a client sends and expects -/

/-- The two bytes of a number of sixteen bits. -/
def u16Bytes (n : UInt16) : List UInt8 := [(n >>> 8).toUInt8, n.toUInt8]

/-- The packets of a client that the server has a branch for. A publication has an identifier when it
is one of QoS 1. -/
inductive Ask
  | connect (body : List UInt8)
  | publish (dup retain : Bool) (msgId : Option UInt16) (topic message : List UInt8)
  | subscribe (msgId : UInt16) (filters : List UInt8)
  | pingreq

namespace Ask

def command : Ask → UInt8
  | connect _ => 0x10
  | publish dup retain msgId _ _ =>
    0x30 ||| (if dup then 0x08 else 0) ||| (if msgId.isSome then 0x02 else 0) |||
      (if retain then 0x01 else 0)
  | subscribe _ _ => 0x82
  | pingreq => 0xC0

/-- What follows the fixed header. -/
def body : Ask → List UInt8
  | connect body => body
  | publish _ _ msgId topic message =>
    u16Bytes (UInt16.ofNat topic.length) ++ topic ++ (msgId.map u16Bytes).getD [] ++ message
  | subscribe msgId filters => u16Bytes msgId ++ filters
  | pingreq => []

def topicLength : Ask → Nat
  | publish _ _ _ topic _ => topic.length
  | _ => 0

/-- The answer a packet asks for: `CONNACK`, `PUBACK`, `SUBACK` with its one return code, or
`PINGRESP`. -/
def reply : Ask → Option (List UInt8)
  | connect _ => some [0x20, 0x02, 0x00, 0x00]
  | publish _ _ msgId _ _ => msgId.map fun id => 0x40 :: 0x02 :: u16Bytes id
  | subscribe msgId _ => some (0x90 :: 0x03 :: u16Bytes msgId ++ [0x01])
  | pingreq => some [0xD0, 0x00]

/-- What a publication carries. -/
def published : Ask → Option (List UInt8 × List UInt8)
  | publish _ _ _ topic message => some (topic, message)
  | _ => none

theorem command_ne (a : Ask) : a.command ≠ 0 := by
  cases a with
  | connect body => exact of_decide_eq_true rfl
  | publish dup retain msgId topic message =>
    cases dup <;> cases retain <;> cases msgId <;> simp [command]
  | subscribe msgId filters => exact of_decide_eq_true rfl
  | pingreq => decide

end Ask

/-- A packet whose lengths fit into their fields. -/
structure Request where
  ask : Ask
  topic_lt : ask.topicLength < 2 ^ 16
  body_lt : ask.body.length < 2 ^ 28

namespace Request

def packet (r : Request) : Packet := ⟨r.ask.command, r.ask.body, r.ask.command_ne, r.body_lt⟩

/-- The number of bytes of the remaining length. -/
def rlb (r : Request) : Nat := (mqttRemainlen2bytes r.ask.body.length).length

/-- Where the message of a publication of QoS 0 starts. -/
def messageStart (r : Request) : Nat := r.ask.topicLength + 3 + r.rlb

end Request

/-- A packet is served. There is a call that processes it, and every call that does so puts the
expected answer behind what is queued and takes out what was published. -/
structure Served (r : Request) (alloc : Bool) : Prop where
  processes : ∀ s w l, Represents s w l → Idle s.inpacket → ∀ more, ∃ sched m,
    clientReadMessage s ⟨r.packet.bytes ++ more, sched⟩ alloc = some m ∧ m.ret = 0 ∧
      m.processed = [r.packet.bytes] ∧ m.sock.outstanding = more
  answers : ∀ s w l k m, Represents s w l → clientReadMessage s k alloc = some m →
    m.processed = [r.packet.bytes] →
      (∃ l', Represents m.session (w ++ r.ask.reply.toList.map (·, 0)) l') ∧
        m.published = r.ask.published

/-- The packets the server can serve. A publication of QoS 1 is read from a buffer that holds its
answer. In one of QoS 0 the message must start below 256, or so far behind that the byte has the right
length again, and what it finds there must be the message. -/
def Servable (r : Request) (alloc : Bool) : Prop :=
  (r.ask.reply.isSome → alloc = true) ∧
    match r.ask with
    | .connect _ => True
    | .publish _ _ (some id) topic message => id < 256 ∧ topic = [] ∧ message = []
    | .publish _ _ none _ message =>
      message.length < 2 ^ 16 ∧ (r.messageStart < 256 ∨ 2 ^ 16 ≤ r.messageStart ∧
        (r.packet.bytes.drop (r.messageStart - 2 ^ 16)).take message.length = message)
    | .subscribe id _ => id < 256
    | .pingreq => True

/-! ## A call that processes the packet -/

variable {p : InPacket} {q : Packet} {j n : Nat}

/-- When all bytes of the remaining length are there, they are read one by one. -/
theorem readLength_complete (h : InLength p q j n) (rest : List UInt8) (sched : List ReadOutcome) :
    ∃ p', readLength p (remainlenBytes (10 - j) n ++ rest)
        (List.replicate (remainlenBytes (10 - j) n).length (.data 0) ++ sched) =
        (1, p', ⟨rest, sched⟩) ∧ LengthRead p' q := by
  have hle := h.le
  induction hk : 10 - j generalizing p j n with
  | zero => omega
  | succ k ih =>
    by_cases hn : n < 128
    · have hread := lengthByte_last h hn
      have hpos : ¬(lengthByte p (UInt8.ofNat n)).remByteSize ≤ 0 := by
        have hlen : 0 < (mqttRemainlen2bytes q.payload.length).length := length_remainlenBytes_pos 9 _
        rw [hread.size]
        omega
      refine ⟨lengthByte p (UInt8.ofNat n), ?_, hread⟩
      rw [remainlenBytes_small _ hn, List.length_singleton, List.replicate_one,
        List.singleton_append, List.singleton_append, readLength, if_neg hpos]
    · have hn : 128 ≤ n := by omega
      have hin := lengthByte_inner h hn
      have hneg : (lengthByte p (UInt8.ofNat (n % 128) ||| 0x80)).remByteSize ≤ 0 := by
        rw [hin.size]
        omega
      rw [remainlenBytes_large _ hn, List.length_cons, List.replicate_succ, List.cons_append,
        List.cons_append, readLength, if_pos hneg]
      exact ih hin hin.le (by omega)

/-- The payload arrives with one read. -/
theorem readPayload_complete (h : InPayload p q 0) (more : List UInt8) :
    ∃ p' sched', readPayload p (q.payload ++ more) [.data q.payload.length] =
        some ⟨none, p', ⟨more, sched'⟩⟩ ∧ InPayload p' q q.payload.length := by
  by_cases hnil : q.payload = []
  · have hneed : p.remNeedLength ≤ 0 := h.need_le_zero.mpr (by rw [hnil, List.length_nil])
    refine ⟨p, [.data q.payload.length], ?_, by rwa [hnil]⟩
    rw [readPayload, if_pos hneed, hnil, List.nil_append]
  · have hlen : 0 < q.payload.length := List.length_pos_iff.mpr hnil
    have hneed : ¬p.remNeedLength ≤ 0 := fun hle => by
      have := h.need_le_zero.mp hle
      omega
    have hne : q.payload ++ more ≠ [] := List.append_ne_nil_of_left_ne_nil hnil more
    have htake : (q.payload ++ more).take p.remNeedLength.toNat = q.payload := by
      rw [h.need, show ((q.payload.length : Int) - (0 : Nat)).toNat = q.payload.length by omega,
        List.take_left]
    have hpayload : q.payload <+: q.payload.drop 0 := List.prefix_rfl
    have hread := inPayload_read h hpayload
    rw [Nat.zero_add] at hread
    refine ⟨_, [], ?_, hread⟩
    simp only [readPayload, if_neg hneed, if_neg h.fits, if_neg hne, htake,
      List.take_of_length_le (Nat.le_succ _), List.drop_left,
      if_pos (hread.need_le_zero.mpr rfl)]

/-- Between two packets a packet that has arrived is read and processed by one call. -/
theorem clientReadMessage_processes {s : Session} {w : List (List UInt8 × Nat)}
    {l : List (Nat × OutPacket)} (hs : Represents s w l) (h : Idle s.inpacket) (q : Packet)
    (more : List UInt8) (alloc : Bool) :
    ∃ sched m, clientReadMessage s ⟨q.bytes ++ more, sched⟩ alloc = some m ∧ m.ret = 0 ∧
      m.processed = [q.bytes] ∧ m.sock.outstanding = more := by
  have hin := inLength_of_idle h q
  obtain ⟨p', hlength, hlen⟩ :=
    readLength_complete hin (q.payload ++ more) [.data q.payload.length]
  rw [Nat.sub_zero, ← mqttRemainlen2bytes] at hlength
  obtain ⟨d, sched', hpayload, hdone⟩ := readPayload_complete (prepare_of_lengthRead hlen) more
  obtain ⟨t, w', l', ht, -, -⟩ := processPacket_idle hs d alloc
  have hcommand : readCommand s.inpacket ⟨q.bytes ++ more, .data 0 ::
      (List.replicate (mqttRemainlen2bytes q.payload.length).length (.data 0) ++
        [.data q.payload.length])⟩ =
      ⟨none, { s.inpacket with command := q.command },
        ⟨mqttRemainlen2bytes q.payload.length ++ (q.payload ++ more),
          List.replicate (mqttRemainlen2bytes q.payload.length).length (.data 0) ++
            [.data q.payload.length]⟩⟩ := by
    simp [readCommand, h.command, Sock.read, Packet.bytes]
  have hsize : ({ s.inpacket with command := q.command } : InPacket).remByteSize ≤ 0 := by
    rw [hin.size]
    omega
  have hbytes : d.data.bytes 0 d.pos.toNat = q.bytes := by
    have hdata := hdone.data
    rw [List.take_length] at hdata
    rw [hdone.pos, Packet.bytes, ← hdata]
    congr 1
  refine ⟨.data 0 :: (List.replicate (mqttRemainlen2bytes q.payload.length).length (.data 0) ++
    [.data q.payload.length]), ⟨0, t, ⟨more, sched'⟩, [q.bytes]⟩, ?_, rfl, rfl, rfl⟩
  simp only [clientReadMessage, hcommand, readLengthAndBody, readHeader, if_pos hsize, hlength]
  have hrc : ¬(1 : Int) = -1 := by decide
  simp only [if_neg hrc, readBody, hpayload, Option.bind_eq_bind, Option.bind_some, ht, hbytes]

/-- A call that processed a packet ended with the `switch` on it. -/
theorem processPacket_of_processed {s : Session} {k : Sock} {alloc : Bool} {m : ReadMessage}
    {bs : List UInt8} (h : clientReadMessage s k alloc = some m) (hm : m.processed = [bs]) :
    ∃ p, processPacket s p alloc = some m.session ∧ p.data.bytes 0 p.pos.toNat = bs := by
  -- the other ways out of the function process nothing
  have hne : ∀ (rc : Int) (p : InPacket) (k : Sock),
      some (⟨rc, { s with inpacket := p }, k, []⟩ : ReadMessage) ≠ some m := by
    intro rc p k heq
    cases heq
    cases hm
  simp only [clientReadMessage] at h
  split at h
  · exact absurd h (hne _ _ _)
  · simp only [readLengthAndBody] at h
    split at h
    · exact absurd h (hne _ _ _)
    · simp only [readBody, Option.bind_eq_bind, Option.bind_eq_some_iff] at h
      obtain ⟨d, -, h⟩ := h
      split at h
      · exact absurd h (hne _ _ _)
      · obtain ⟨t, ht, h⟩ := Option.bind_eq_some_iff.mp h
        cases h
        exact ⟨d.packet, ht, (List.cons.inj hm).1⟩

/-! ## Where the fields of a packet are -/

variable {b : Mem}

/-- The buffer starts with the bytes of the packet. -/
def Holds (b : Mem) (q : Packet) : Prop := b.bytes 0 q.bytes.length = q.bytes

/-- The remaining length is behind the command byte, and the payload behind it. -/
theorem Holds.fields (h : Holds b q) :
    b 0 = q.command ∧
      b.bytes 1 (mqttRemainlen2bytes q.payload.length).length =
        mqttRemainlen2bytes q.payload.length ∧
      b.bytes (1 + (mqttRemainlen2bytes q.payload.length).length) q.payload.length = q.payload := by
  rw [Holds, Packet.bytes, List.length_cons, Mem.bytes_succ, List.cons.injEq,
    List.length_append] at h
  obtain ⟨hcommand, hrest⟩ := h
  exact ⟨hcommand, Mem.bytes_eq_append b hrest⟩

/-- One byte of the payload. -/
theorem Holds.payload_getD (h : Holds b q) {i : Nat} (hi : i < q.payload.length) :
    b (1 + (mqttRemainlen2bytes q.payload.length).length + i) = q.payload.getD i 0 := by
  conv_rhs => rw [← h.fields.2.2]
  rw [Mem.getD_bytes _ hi]

/-- The bytes of a remaining length from one of them on. -/
def LengthAt (b : Mem) (pos : Int) (fuel n : Nat) : Prop :=
  b.bytes pos (remainlenBytes fuel n).length = remainlenBytes fuel n

theorem LengthAt.last {fuel n : Nat} {pos : Int} (h : LengthAt b pos (fuel + 1) n) (hn : n < 128) :
    b pos = UInt8.ofNat n := by
  rw [LengthAt, remainlenBytes_small _ hn, List.length_singleton, Mem.bytes_succ, Mem.bytes_zero,
    List.cons.injEq] at h
  exact h.1

theorem LengthAt.inner {fuel n : Nat} {pos : Int} (h : LengthAt b pos (fuel + 1) n)
    (hn : 128 ≤ n) :
    b pos = UInt8.ofNat (n % 128) ||| 0x80 ∧ LengthAt b (pos + 1) fuel (n / 128) := by
  rw [LengthAt, remainlenBytes_large _ hn, List.length_cons, Mem.bytes_succ, List.cons.injEq] at h
  exact h

/-- A digit of a length, with the digits above it. -/
theorem digit_weight (high low multiplier value : UInt16) :
    value + low * multiplier + high * (multiplier * 128) =
      value + (high * 128 + low) * multiplier := by grind

/-- The length that the loop of `mqtt_parse_rem_len` reads, in sixteen bits. -/
theorem parseRemLenLoop_eq {fuel n : Nat} {pos : Int} (multiplier value : UInt16) (hfuel : 0 < fuel)
    (hn : n < 128 ^ fuel) (h : LengthAt b pos fuel n) :
    parseRemLenLoop b fuel pos multiplier value = some (value + UInt16.ofNat n * multiplier) := by
  induction fuel generalizing n pos multiplier value with
  | zero => omega
  | succ fuel ih =>
    by_cases hlt : n < 128
    · obtain ⟨hhigh, hlow⟩ := lastByte_bits n hlt
      have hdigit : (UInt8.ofNat n &&& 127).toUInt16 = UInt16.ofNat n := by
        rw [← UInt16.ofNat_uInt8ToNat, hlow]
      rw [parseRemLenLoop, h.last hlt, if_neg (not_not.mpr hhigh), hdigit]
    · have hle : 128 ≤ n := by omega
      obtain ⟨hbyte, hrest⟩ := h.inner hle
      obtain ⟨hhigh, hlow⟩ := innerByte_bits (n % 128) (Nat.mod_lt _ (by omega))
      have hdigit : ((UInt8.ofNat (n % 128) ||| 0x80) &&& 127).toUInt16 = UInt16.ofNat (n % 128) := by
        rw [← UInt16.ofNat_uInt8ToNat, hlow]
      have hdiv : n / 128 < 128 ^ fuel := by
        rw [pow_succ] at hn
        omega
      have hpos : 0 < fuel := by
        by_contra hzero
        have hfuel : fuel = 0 := by omega
        rw [hfuel] at hn
        omega
      -- the digits of `n` in sixteen bits
      have hdigits : UInt16.ofNat n = UInt16.ofNat (n / 128) * 128 + UInt16.ofNat (n % 128) := by
        conv_lhs => rw [← Nat.div_add_mod' n 128]
        rw [UInt16.ofNat_add, UInt16.ofNat_mul]
        rfl
      rw [parseRemLenLoop, hbyte, if_pos hhigh, hdigit, ih _ _ hpos hdiv hrest, hdigits,
        digit_weight]

/-- The bits that say whether another byte of the length follows. -/
theorem LengthAt.high {fuel n : Nat} {pos : Int} (h : LengthAt b pos (fuel + 1) n) :
    b pos &&& 0x80 = 0x80 ↔ 128 ≤ n := by
  by_cases hn : n < 128
  · rw [h.last hn, (lastByte_bits n hn).1]
    exact ⟨fun heq => absurd heq (by decide), fun hle => by omega⟩
  · have hset : ∀ k < 128, (UInt8.ofNat k ||| 0x80) &&& 0x80 = 0x80 := by decide +kernel
    rw [(h.inner (by omega)).1, hset _ (Nat.mod_lt _ (by omega))]
    exact ⟨fun _ => by omega, fun _ => rfl⟩

theorem Holds.lengthAt (h : Holds b q) : LengthAt b 1 10 q.payload.length := h.fields.2.1

/-- The server finds as many bytes of the remaining length as there are. -/
theorem Holds.numRemLenBytes (h : Holds b q) :
    mqttNumRemLenBytes b = (mqttRemainlen2bytes q.payload.length).length := by
  have h0 := h.lengthAt
  have hlt := q.length_lt
  generalize q.payload.length = n at h0 hlt
  rw [mqttNumRemLenBytes, mqttRemainlen2bytes]
  simp only [h0.high]
  by_cases hn : n < 128
  · rw [if_neg (by omega), remainlenBytes_small _ hn, List.length_singleton]
  · have h1 := (h0.inner (by omega)).2
    rw [if_pos (by omega), remainlenBytes_large _ (by omega), List.length_cons]
    have hb1 := h1.high
    rw [show (1 : Int) + 1 = 2 by rfl] at hb1
    simp only [hb1]
    by_cases hn1 : n / 128 < 128
    · rw [if_neg (by omega), remainlenBytes_small _ hn1, List.length_singleton]
    · have h2 := (h1.inner (by omega)).2
      rw [if_pos (by omega), remainlenBytes_large _ (by omega), List.length_cons]
      have hb2 := h2.high
      rw [show (1 : Int) + 1 + 1 = 3 by rfl] at hb2
      simp only [hb2]
      by_cases hn2 : n / 128 / 128 < 128
      · rw [if_neg (by omega), remainlenBytes_small _ hn2, List.length_singleton]
      · rw [if_pos (by omega), remainlenBytes_large _ (by omega), List.length_cons,
          remainlenBytes_small _ (by omega), List.length_singleton]

/-- The remaining length that the server reads has sixteen bits. -/
theorem Holds.parseRemLen (h : Holds b q) :
    mqttParseRemLen b = some (UInt16.ofNat q.payload.length) := by
  have hlt : q.payload.length < 128 ^ 10 := q.length_lt.trans (by norm_num)
  rw [mqttParseRemLen, parseRemLenLoop_eq 1 0 (by omega) hlt h.lengthAt]
  congr 1
  grind

/-- A part of the packet, read from the buffer. -/
theorem Holds.slice (h : Holds b q) {off k : Nat} (hk : off + k ≤ q.bytes.length) :
    b.bytes off k = (q.bytes.drop off).take k := by
  have hdrop : q.bytes.drop off = b.bytes off (q.bytes.length - off) := by
    conv_lhs => rw [← h]
    rw [Mem.drop_bytes, Int.zero_add]
  rw [hdrop, Mem.take_bytes _ (by omega)]

theorem Holds.getD (h : Holds b q) {i : Nat} (hi : i < q.bytes.length) :
    q.bytes.getD i 0 = b i := by
  conv_lhs => rw [← h]
  rw [Mem.getD_bytes _ hi, Int.zero_add]

theorem Packet.drop_bytes (q : Packet) (i : Nat) :
    q.bytes.drop (1 + (mqttRemainlen2bytes q.payload.length).length + i) = q.payload.drop i := by
  rw [← List.drop_drop, Nat.add_comm 1, Packet.bytes, List.drop_succ_cons, List.drop_left]

theorem Packet.length_bytes (q : Packet) :
    q.bytes.length = 1 + (mqttRemainlen2bytes q.payload.length).length + q.payload.length := by
  rw [Packet.bytes, List.length_cons, List.length_append]
  omega

/-! ## Numbers of sixteen bits -/

theorem toNat_upperByte (n : UInt16) : (n >>> 8).toUInt8.toNat = n.toNat / 256 := by
  have hlt := n.toNat_lt
  rw [UInt16.toNat_toUInt8, UInt16.toNat_shiftRight, Nat.shiftRight_eq_div_pow]
  show n.toNat / 256 % 256 = n.toNat / 256
  omega

theorem zero_eq_upperByte_iff (n : UInt16) : (0 : UInt8) = (n >>> 8).toUInt8 ↔ n < 256 := by
  rw [← UInt8.toNat_inj, toNat_upperByte, UInt16.lt_iff_toNat_lt]
  show 0 = n.toNat / 256 ↔ n.toNat < 256
  omega

theorem u16Bytes_value (n : UInt16) :
    (n >>> 8).toUInt8.toUInt16 <<< 8 ||| n.toUInt8.toUInt16 = n := by
  have hlt := n.toNat_lt
  have hlow : n.toNat % 256 < 2 ^ 8 := Nat.mod_lt _ (by omega)
  have hhigh : n.toNat / 256 * 2 ^ 8 < 2 ^ 16 := by omega
  rw [← UInt16.toNat_inj, UInt16.toNat_or, UInt16.toNat_shiftLeft, UInt8.toNat_toUInt16,
    toNat_upperByte, UInt8.toNat_toUInt16, UInt16.toNat_toUInt8]
  show (n.toNat / 256) <<< 8 % 2 ^ 16 ||| n.toNat % 256 = n.toNat
  rw [Nat.shiftLeft_eq, Nat.mod_eq_of_lt hhigh, ← Nat.shiftLeft_eq,
    ← Nat.shiftLeft_add_eq_or_of_lt hlow, Nat.shiftLeft_eq]
  omega

theorem sub_sub_eq_of_add_eq {a c d e : UInt16} (h : a + c = d + e) : a - (e - c) = d := by
  grind

/-! ## The branches -/

namespace Request

variable {r : Request}

@[simp] theorem packet_command : r.packet.command = r.ask.command := rfl

@[simp] theorem packet_payload : r.packet.payload = r.ask.body := rfl

theorem reply_connect {body : List UInt8} (h : Holds b r.packet) (hr : r.ask = .connect body) :
    (reply b).map Subtype.val = some [0x20, 0x02, 0x00, 0x00] := by
  have hcommand : b 0 = 0x10 := by
    rw [h.fields.1, packet_command, hr]
    rfl
  simp only [reply, hcommand]
  rfl

theorem reply_pingreq (h : Holds b r.packet) (hr : r.ask = .pingreq) :
    (reply b).map Subtype.val = some [0xD0, 0x00] := by
  have hcommand : b 0 = 0xC0 := by
    rw [h.fields.1, packet_command, hr]
    rfl
  simp only [reply, hcommand]
  rfl

/-- A subscription is answered with the low byte of its identifier. -/
theorem reply_subscribe {msgId : UInt16} {filters : List UInt8} (h : Holds b r.packet)
    (hr : r.ask = .subscribe msgId filters) :
    (reply b).map Subtype.val = some [0x90, 0x03, 0x00, msgId.toUInt8, 0x01] := by
  have hcommand : b 0 = 0x82 := by
    rw [h.fields.1, packet_command, hr]
    rfl
  have hbody : r.packet.payload = u16Bytes msgId ++ filters := by
    rw [packet_payload, hr]
    rfl
  have hlow : b (1 + (mqttRemainlen2bytes r.packet.payload.length).length + (1 : Nat)) =
      msgId.toUInt8 := by
    rw [h.payload_getD (by rw [hbody]; simp [u16Bytes]), hbody]
    rfl
  have hid : mqttParseMsgId b = msgId.toUInt8 := by
    rw [← hlow, mqttParseMsgId, hcommand, h.numRemLenBytes]
    rfl
  simp only [reply, hcommand, hid]
  rfl

section Publish

variable {dup retain : Bool} {msgId : Option UInt16} {topic message : List UInt8}

/-- The command byte of a publication. -/
theorem command_publish (h : Holds b r.packet)
    (hr : r.ask = .publish dup retain msgId topic message) :
    b 0 &&& 0xF0 = 0x30 ∧ (b 0 &&& 0x06) >>> 1 = if msgId.isSome then 1 else 0 := by
  have hbits : ∀ dup retain qos : Bool,
      ((0x30 : UInt8) ||| (if dup then 0x08 else 0) ||| (if qos then 0x02 else 0) |||
          (if retain then 0x01 else 0)) &&& 0xF0 = 0x30 ∧
        (((0x30 : UInt8) ||| (if dup then 0x08 else 0) ||| (if qos then 0x02 else 0) |||
          (if retain then 0x01 else 0)) &&& 0x06) >>> 1 = if qos then 1 else 0 := by decide
  rw [h.fields.1, packet_command, hr]
  exact hbits dup retain msgId.isSome

/-- What follows the fixed header of a publication. -/
theorem body_publish (hr : r.ask = .publish dup retain msgId topic message) :
    r.packet.payload = (UInt16.ofNat topic.length >>> 8).toUInt8 ::
      (UInt16.ofNat topic.length).toUInt8 ::
        (topic ++ ((msgId.map u16Bytes).getD [] ++ message)) := by
  rw [packet_payload, hr]
  simp [Ask.body, u16Bytes]

theorem messageStart_publish (hr : r.ask = .publish dup retain msgId topic message) :
    r.messageStart = 1 + r.rlb + (2 + topic.length) := by
  rw [messageStart, hr, Ask.topicLength]
  omega

theorem topic_lt_publish (hr : r.ask = .publish dup retain msgId topic message) :
    topic.length < 2 ^ 16 := by
  have htopic := r.topic_lt
  rwa [hr] at htopic

/-- The two bytes of the topic length in the buffer. -/
theorem topicLength_publish (h : Holds b r.packet)
    (hr : r.ask = .publish dup retain msgId topic message) :
    b (1 + r.rlb) = (UInt16.ofNat topic.length >>> 8).toUInt8 ∧
      b (1 + r.rlb + 1) = (UInt16.ofNat topic.length).toUInt8 := by
  have hbody := body_publish hr
  have h0 : b (1 + r.rlb + (0 : Nat)) = r.packet.payload.getD 0 0 :=
    h.payload_getD (by rw [hbody]; simp)
  have h1 : b (1 + r.rlb + (1 : Nat)) = r.packet.payload.getD 1 0 :=
    h.payload_getD (by rw [hbody]; simp)
  rw [hbody] at h0 h1
  exact ⟨by simpa using h0, by simpa using h1⟩

/-- The topic is found where it is. -/
theorem topic_publish (h : Holds b r.packet)
    (hr : r.ask = .publish dup retain msgId topic message) :
    copied b (mqttParsePubTopicPtr b).1 (mqttParsePubTopicPtr b).2 = topic := by
  have hbody := body_publish hr
  have hrlb : mqttNumRemLenBytes b = r.rlb := h.numRemLenBytes
  have hlen : r.packet.bytes.length = 1 + r.rlb + r.packet.payload.length := r.packet.length_bytes
  have hdrop : r.packet.bytes.drop (1 + r.rlb + 2) = r.packet.payload.drop 2 :=
    r.packet.drop_bytes 2
  obtain ⟨hhigh, hlow⟩ := topicLength_publish h hr
  rw [mqttParsePubTopicPtr, if_pos (command_publish h hr).1]
  simp only [hrlb, hhigh, hlow, u16Bytes_value, copied]
  rw [UInt16.toNat_ofNat_of_lt' (topic_lt_publish hr), h.slice, hdrop, hbody]
  · exact List.take_left
  · rw [hlen, hbody]
    simp only [List.length_cons, List.length_append]
    omega

/-- The byte that is left of the offset of the identifier or the message. -/
theorem offset_publish (h : Holds b r.packet)
    (hr : r.ask = .publish dup retain msgId topic message) :
    b (1 + r.rlb + 1) + UInt8.ofNat (1 + r.rlb + 2) = UInt8.ofNat r.messageStart := by
  rw [(topicLength_publish h hr).2, messageStart_publish hr, UInt16.toUInt8_ofNat',
    ← UInt8.ofNat_add]
  congr 1
  omega

/-- A publication of QoS 1 is answered with the byte behind that offset. -/
theorem reply_publish (h : Holds b r.packet)
    (hr : r.ask = .publish dup retain msgId topic message) :
    (reply b).map Subtype.val = msgId.map fun _ =>
      [0x40, 0x02, 0x00, r.packet.bytes.getD (r.messageStart % 256 + 1) 0] := by
  obtain ⟨htype, hqos⟩ := command_publish h hr
  have hrlb : mqttNumRemLenBytes b = r.rlb := h.numRemLenBytes
  have hnot : ¬(0x30 : UInt8) = 0x10 := by decide
  cases msgId with
  | none =>
    have hzero : ¬(0 : UInt8) = 1 := by decide
    simp only [reply, htype, hqos, if_neg hnot, if_true, Option.isSome_none, Bool.false_eq_true,
      if_false, if_neg hzero]
    rfl
  | some id =>
    have hone : (1 : UInt8) ≠ 0 := by decide
    have hrange : (0x30 : UInt8) ≤ 0x30 ∧ (0x30 : UInt8) ≤ 0xB0 := by decide
    have hid : mqttParseMsgId b = r.packet.bytes.getD (r.messageStart % 256 + 1) 0 := by
      rw [mqttParseMsgId]
      simp only [htype, hqos, Option.isSome_some, if_true, if_pos hone, if_pos hrange, hrlb,
        offset_publish h hr]
      have hstart := messageStart_publish hr
      have hlen : r.packet.bytes.length = 1 + r.rlb + r.packet.payload.length :=
        r.packet.length_bytes
      rw [body_publish hr] at hlen
      simp only [List.length_cons, List.length_append, Option.map_some, Option.getD_some,
        u16Bytes, List.length_nil] at hlen
      rw [UInt8.toNat_ofNat', h.getD (by omega)]
      congr 1
    simp only [reply, htype, hqos, if_neg hnot, if_true, Option.isSome_some, hid, Option.map_some]

/-- The message of a publication of QoS 0 is taken from that offset, with its length in sixteen bits. -/
theorem message_publish (h : Holds b r.packet)
    (hr : r.ask = .publish dup retain none topic message) :
    mqttParsePubMsgPtr b = some (UInt16.ofNat (message.length + 256 * (r.messageStart / 256)),
      some (UInt8.ofNat r.messageStart)) := by
  obtain ⟨htype, hqos⟩ := command_publish h hr
  have hrlb : mqttNumRemLenBytes b = r.rlb := h.numRemLenBytes
  have hzero : ¬(0 : UInt8) ≠ 0 := by decide
  rw [mqttParsePubMsgPtr, if_pos htype]
  simp only [hqos, Option.isSome_none, Bool.false_eq_true, if_false, if_neg hzero, hrlb,
    offset_publish h hr, h.parseRemLen, Option.bind_eq_bind, Option.bind_some]
  have hoffset : (UInt8.ofNat r.messageStart).toUInt16 = UInt16.ofNat (r.messageStart % 256) := by
    rw [← UInt16.ofNat_uInt8ToNat, UInt8.toNat_ofNat']
  -- what the code subtracts from, and what it subtracts
  have hsum : r.packet.payload.length + (r.rlb + 1) =
      message.length + 256 * (r.messageStart / 256) + r.messageStart % 256 := by
    have hstart := messageStart_publish hr
    rw [body_publish hr]
    simp only [List.length_cons, List.length_append, Option.map_none, Option.getD_none,
      List.length_nil]
    omega
  have hsum16 := congrArg UInt16.ofNat hsum
  rw [UInt16.ofNat_add _ (r.rlb + 1), UInt16.ofNat_add _ (r.messageStart % 256)] at hsum16
  rw [hoffset, sub_sub_eq_of_add_eq hsum16]

theorem length_bytes_publish (hr : r.ask = .publish dup retain none topic message) :
    r.packet.bytes.length = r.messageStart + message.length := by
  have hlen : r.packet.bytes.length = 1 + r.rlb + r.packet.payload.length := r.packet.length_bytes
  have hstart := messageStart_publish hr
  rw [hlen, body_publish hr]
  simp only [List.length_cons, List.length_append, Option.map_none, Option.getD_none,
    List.length_nil]
  omega

/-- The message is where it should be. -/
theorem take_drop_publish (hr : r.ask = .publish dup retain none topic message) :
    (r.packet.bytes.drop r.messageStart).take message.length = message := by
  have hdrop : r.packet.bytes.drop (1 + r.rlb + (2 + topic.length)) =
      r.packet.payload.drop (2 + topic.length) := r.packet.drop_bytes _
  rw [messageStart_publish hr, hdrop, body_publish hr, Nat.add_comm 2]
  simp

/-- The message that is taken is the one that was sent if it starts early enough, or if both its
offset and its length come round. -/
theorem message_eq_iff (h : Holds b r.packet)
    (hr : r.ask = .publish dup retain none topic message) :
    b.bytes (r.messageStart % 256 : Nat) ((message.length + 256 * (r.messageStart / 256)) % 2 ^ 16) =
        message ↔
      message.length < 2 ^ 16 ∧ (r.messageStart < 256 ∨ 2 ^ 16 ≤ r.messageStart ∧
        (r.packet.bytes.drop (r.messageStart - 2 ^ 16)).take message.length = message) := by
  have htopic := topic_lt_publish hr
  have hstart := messageStart_publish hr
  have hlen := length_bytes_publish hr
  have hrlb : r.rlb ≤ 4 := by
    have hnum : mqttNumRemLenBytes b = r.rlb := h.numRemLenBytes
    rw [← hnum, mqttNumRemLenBytes]
    split_ifs <;> omega
  constructor
  · intro heq
    have hlength := congrArg List.length heq
    rw [Mem.length_bytes] at hlength
    refine ⟨by omega, ?_⟩
    by_cases hsmall : r.messageStart < 256
    · exact Or.inl hsmall
    · have hlarge : 2 ^ 16 ≤ r.messageStart := by omega
      refine Or.inr ⟨hlarge, ?_⟩
      rw [hlength, h.slice (by omega)] at heq
      rwa [show r.messageStart - 2 ^ 16 = r.messageStart % 256 by omega]
  · rintro ⟨hlt, hsmall | ⟨hlarge, heq⟩⟩
    · rw [show r.messageStart / 256 = 0 by omega, Nat.mul_zero, Nat.add_zero, Nat.mod_eq_of_lt hlt,
        Nat.mod_eq_of_lt hsmall, h.slice (by omega), take_drop_publish hr]
    · rw [show (message.length + 256 * (r.messageStart / 256)) % 2 ^ 16 = message.length by omega,
        show r.messageStart % 256 = r.messageStart - 2 ^ 16 by omega, h.slice (by omega), heq]

/-- Where nothing is published, the byte behind the offset is that of the identifier. -/
theorem identifier_of_empty {id : UInt16} (hr : r.ask = .publish dup retain (some id) [] []) :
    r.packet.bytes.getD (r.messageStart % 256 + 1) 0 = id.toUInt8 := by
  have hbody : r.ask.body = (0 : UInt8) :: 0 :: u16Bytes id := by
    rw [hr]
    rfl
  have hlength : mqttRemainlen2bytes r.ask.body.length = [4] := by
    rw [hbody]
    exact remainlenBytes_small 9 (show 4 < 128 by omega)
  have hstart : r.messageStart = 4 := by
    rw [messageStart, rlb, hlength, hr]
    rfl
  rw [hstart, Packet.bytes, packet_payload, hlength, hbody]
  rfl

/-- What is taken out of a publication of QoS 0. -/
theorem topicAndMessage_publish (h : Holds b r.packet)
    (hr : r.ask = .publish dup retain none topic message) :
    topicAndMessage b = some (topic, b.bytes (r.messageStart % 256 : Nat)
      ((message.length + 256 * (r.messageStart / 256)) % 2 ^ 16)) := by
  have htopic := topic_publish h hr
  simp only [topicAndMessage, htopic, message_publish h hr, Option.bind_eq_bind, Option.bind_some]
  simp only [copied, Option.map_some, UInt16.toNat_ofNat', UInt8.toNat_ofNat']

end Publish

end Request

/-- In a buffer that starts with an answer there is no publication. -/
theorem topicAndMessage_of_ne (h : b 0 &&& 0xF0 ≠ 0x30) : topicAndMessage b = some ([], []) := by
  simp only [topicAndMessage, mqttParsePubTopicPtr, mqttParsePubMsgPtr, if_neg h, copied,
    Option.bind_eq_bind, Option.bind_some, Option.map_none]

/-! ## The whole call -/

theorem Represents.unique {s : Session} {w w' : List (List UInt8 × Nat)}
    {l l' : List (Nat × OutPacket)} (h : Represents s w l) (h' : Represents s w' l') : w = w' := by
  rw [← h.cells, ← h'.cells, h.linked.unique h'.linked]

/-- What is queued, and what is left in the buffer. -/
theorem processPacket_spec {s t : Session} {w : List (List UInt8 × Nat)}
    {l : List (Nat × OutPacket)} {alloc : Bool} (hs : Represents s w l)
    (h : processPacket s p alloc = some t) :
    (∃ l', Represents t
      (w ++ (if alloc then ((reply p.data).map Subtype.val).toList else []).map (·, 0)) l') ∧
      t.inpacket.data = p.data.write 0 (((reply p.data).map Subtype.val).getD []) := by
  simp only [processPacket] at h
  cases hreply : reply p.data with
  | none =>
    simp only [hreply, Option.some.injEq] at h
    subst h
    refine ⟨⟨l, ?_⟩, by simp⟩
    simpa using hs.inpacket _
  | some x =>
    simp only [hreply, Option.map_eq_some_iff] at h
    obtain ⟨u, hu, rfl⟩ := h
    refine ⟨?_, rfl⟩
    cases alloc with
    | false =>
      cases hu
      exact ⟨l, by simpa using hs.inpacket _⟩
    | true =>
      obtain ⟨v, l', hv, hrep⟩ := push_represents hs x
      rw [hv] at hu
      cases hu
      exact ⟨l', hrep.inpacket _⟩

/-- The answer in the queue is the expected one. -/
theorem queued_iff {t : Session} {w : List (List UInt8 × Nat)} {l : List (Nat × OutPacket)}
    {queued expected : List (List UInt8)} (h : Represents t (w ++ queued.map (·, 0)) l) :
    (∃ l', Represents t (w ++ expected.map (·, 0)) l') ↔ queued = expected := by
  constructor
  · rintro ⟨l', h'⟩
    have hmap := List.append_cancel_left (h.unique h')
    exact (List.map_injective_iff.mpr fun a b hab => (Prod.mk.inj hab).1) hmap
  · rintro rfl
    exact ⟨l, h⟩

variable {r : Request} {alloc : Bool}

/-- The queue is as expected, for an answer that is what is asked for up to its contents. -/
theorem toList_eq_iff {x y : List UInt8} :
    (if alloc then (some x).toList else []) = (some y).toList ↔ alloc = true ∧ x = y := by
  cases alloc <;> simp

/-- The call serves the packet exactly when the packet is servable. -/
theorem answered_iff {s : Session} {w : List (List UInt8 × Nat)} {l : List (Nat × OutPacket)}
    {k : Sock} {m : ReadMessage} (hs : Represents s w l)
    (h : clientReadMessage s k alloc = some m) (hm : m.processed = [r.packet.bytes]) :
    ((∃ l', Represents m.session (w ++ r.ask.reply.toList.map (·, 0)) l') ∧
      m.published = r.ask.published) ↔ Servable r alloc := by
  obtain ⟨p, hp, hbytes⟩ := processPacket_of_processed h hm
  have hholds : Holds p.data r.packet := by
    have hlen := congrArg List.length hbytes
    rw [Mem.length_bytes] at hlen
    rw [Holds, ← hlen, hbytes]
  obtain ⟨⟨l', hrep⟩, hdata⟩ := processPacket_spec hs hp
  rw [queued_iff hrep]
  have hpub : m.published = if r.ask.command &&& 0xF0 = 0x30 then
      topicAndMessage (p.data.write 0 (((reply p.data).map Subtype.val).getD [])) else none := by
    rw [ReadMessage.published, hm, ← hdata]
    rfl
  -- the type of the packet decides whether something is taken out of it
  have hother : ∀ c : UInt8, c &&& 0xF0 ≠ 0x30 → r.ask.command = c →
      m.published = none := fun c hc hcommand => by rw [hpub, hcommand, if_neg hc]
  cases hr : r.ask with
  | connect body =>
    have hnone := hother 0x10 (by decide) (by rw [hr]; rfl)
    rw [Request.reply_connect hholds hr, Ask.reply, toList_eq_iff, hnone, Servable, hr]
    simp [Ask.reply, Ask.published]
  | publish dup retain msgId topic message =>
    have htype := (Request.command_publish hholds hr).1
    rw [hholds.fields.1, Request.packet_command] at htype
    rw [if_pos htype] at hpub
    cases msgId with
    | none =>
      have hreply := Request.reply_publish hholds hr
      rw [Option.map_none] at hreply
      rw [hreply, Option.getD_none, Mem.write_nil, Request.topicAndMessage_publish hholds hr] at hpub
      rw [hreply, hpub, Servable, hr]
      simp only [Ask.reply, Ask.published, Option.map_none, Option.toList_none, ite_self,
        Option.some.injEq, Prod.mk.injEq, true_and, Option.isSome_none, Bool.false_eq_true,
        false_implies]
      exact Request.message_eq_iff hholds hr
    | some id =>
      have hreply := Request.reply_publish hholds hr
      rw [Option.map_some] at hreply
      have hempty : m.published = some ([], []) := by
        have hzero : ∀ bs : List UInt8, p.data.write 0 (0x40 :: bs) 0 = 0x40 := fun bs =>
          Mem.write_getD (i := 0) (by simp)
        rw [hpub, hreply, Option.getD_some, topicAndMessage_of_ne]
        rw [hzero]
        decide
      rw [hreply, hempty, Ask.reply, Option.map_some, toList_eq_iff, Servable, hr]
      simp only [Ask.reply, Ask.published, Option.map_some, Option.isSome_some, forall_const,
        Option.some.injEq, Prod.mk.injEq, u16Bytes, List.cons.injEq, zero_eq_upperByte_iff, true_and,
        and_true, and_assoc]
      constructor
      · rintro ⟨halloc, hid, -, htopic, hmessage⟩
        exact ⟨halloc, hid, htopic.symm, hmessage.symm⟩
      · rintro ⟨halloc, hid, rfl, rfl⟩
        exact ⟨halloc, hid, Request.identifier_of_empty hr, rfl, rfl⟩
  | subscribe msgId filters =>
    have hnone := hother 0x82 (by decide) (by rw [hr]; rfl)
    rw [Request.reply_subscribe hholds hr, Ask.reply, toList_eq_iff, hnone, Servable, hr]
    simp [Ask.reply, Ask.published, u16Bytes, zero_eq_upperByte_iff]
  | pingreq =>
    have hnone := hother 0xC0 (by decide) (by rw [hr]; rfl)
    rw [Request.reply_pingreq hholds hr, Ask.reply, toList_eq_iff, hnone, Servable, hr]
    simp [Ask.reply, Ask.published]

/-- **Replies and delivery.** A packet is served exactly when it is servable. -/
theorem served_iff (r : Request) (alloc : Bool) : Served r alloc ↔ Servable r alloc := by
  constructor
  · intro h
    have hs := represents_accepted 0
    obtain ⟨sched, m, hm, -, hprocessed, -⟩ :=
      h.processes _ _ _ hs ⟨rfl, rfl, rfl⟩ []
    exact (answered_iff hs hm hprocessed).mp (h.answers _ _ _ _ _ hs hm hprocessed)
  · intro h
    refine ⟨fun s w l hs hidle more => clientReadMessage_processes hs hidle r.packet more alloc, ?_⟩
    intro s w l k m hs hm hprocessed
    exact (answered_iff hs hm hprocessed).mpr h

/-- One letter published with QoS 1 on the topic `a`. -/
def publishQos1 : Request :=
  ⟨.publish false false (some 1) [0x61] [0x78], by decide, by decide⟩

/-- It is answered, but topic and message are looked for in the answer. -/
theorem not_served_publishQos1 : ¬Served publishQos1 true := by
  intro h
  have hs := represents_accepted 0
  obtain ⟨sched, m, hm, -, hprocessed, -⟩ := h.processes _ _ _ hs ⟨rfl, rfl, rfl⟩ []
  have hservable := (answered_iff hs hm hprocessed).mp (h.answers _ _ _ _ _ hs hm hprocessed)
  exact absurd hservable.2.2.1 (by decide)

end ProgrammingPath.Mqtt
