import ProgrammingPath.Lib.DataStream

/-!
# Packets of a device

`HKPacket.java` of the MQTT client: a device sends a head of 23 bytes (version, device type, serial
number), a data head of seven, the message, and a checksum over the last two. `encode` writes such a
packet, `decodeFromDevice` reads it. What was written is read again as long as no field needs the
sign bit of the reader that reads it; a wrong checksum is only printed.
-/

namespace ProgrammingPath.Mqtt.HkPacket

open ProgrammingPath.Lib

/-! ## The parts of a packet -/

/-- `HKPacketFromDeviceHead`. A Java string is the list of its chars. -/
structure HKPacketFromDeviceHead where
  version : Int
  devType : Int
  sn : List UInt16
  deriving DecidableEq, Repr

/-- `MAX_SIZE`: 20 bytes of serial number and three in front of it. -/
def headMaxSize : Nat := 23

/-- `HKPacketDataHead`. -/
structure HKPacketDataHead where
  head : Int
  length : Int
  seq : Int
  funType : Int
  msgDir : Int
  funName : Int
  deriving DecidableEq, Repr

/-- `HEAD_LENGTH`: the data head and the checksum. -/
def headLength : Int := 8

/-- `HKPacketMsg`; the message is `null` in a new object. -/
structure HKPacketMsg where
  function : Int
  format : Int
  message : Option (List UInt8)
  deriving DecidableEq, Repr

structure HKPacket where
  base : HKPacketFromDeviceHead
  dataHead : HKPacketDataHead
  msg : HKPacketMsg
  deriving DecidableEq, Repr

/-! ## `encode` -/

/-- `writeBytes` writes the low byte of every char. -/
def HKPacketFromDeviceHead.toBytes (b : HKPacketFromDeviceHead) : List UInt8 :=
  writeByte b.version ++ writeShort b.devType ++ b.sn.map UInt16.toUInt8

/-- The low byte of `funType << 4 | msgDir`. -/
def packFunType (funType msgDir : Int) : UInt8 :=
  UInt8.ofBitVec ((BitVec.ofInt 32 funType <<< 4 ||| BitVec.ofInt 32 msgDir).setWidth 8)

def HKPacketDataHead.toBytes (d : HKPacketDataHead) : List UInt8 :=
  writeShort d.head ++ writeShort d.length ++ writeByte d.seq ++ [packFunType d.funType d.msgDir] ++
    writeByte d.funName

def HKPacketMsg.toBytes (m : HKPacketMsg) : List UInt8 :=
  writeByte m.function ++ writeByte m.format ++
    match m.message with
    | some message => writeShort message.length ++ message
    | none => writeShort 0

/-- The checksum over some bytes: their sum, `~` of it, plus one. -/
def checkOf (bytes : List UInt8) : UInt8 := ~~~bytes.foldl (· + ·) 0 + 1

/-- What `encode` makes of its first two arguments, which it changes. -/
def encodedBase (b : HKPacketFromDeviceHead) : HKPacketFromDeviceHead := { b with version := 1 }

def encodedDataHead (d : HKPacketDataHead) (m : HKPacketMsg) : HKPacketDataHead :=
  { d with length := headLength + m.toBytes.length }

def encode (b : HKPacketFromDeviceHead) (d : HKPacketDataHead) (m : HKPacketMsg) : List UInt8 :=
  let serial := (encodedDataHead d m).toBytes ++ m.toBytes
  (encodedBase b).toBytes ++ serial ++ [checkOf serial]

/-! ## `decodeFromDevice` -/

/-- What `decodeFromDevice` needs of its platform: `new String(bytes)` with the default charset,
which agrees with ASCII on ASCII, and the native `aesDecode` for a key. -/
structure Platform where
  newString : List UInt8 → List UInt16
  aesDecode : List UInt8 → Option (List UInt8)
  newString_ascii : ∀ bytes, (∀ b ∈ bytes, b.toNat < 128) → newString bytes = bytes.map UInt8.toUInt16

/-- The message of a packet that is not encrypted. -/
def readMsg (input : List UInt8) : Except Exn (HKPacketMsg × List UInt8) := do
  let (function, input) ← readByte input
  let (format, input) ← readByte input
  let (length, input) ← readShort input
  let size ← newArray length
  let (message, input) := readInto size input
  pure (⟨function, format, some message⟩, input)

/-- The message of an encrypted packet with a length field of `length`. -/
def readEncryptedMsg (pf : Platform) (length : Int) (input : List UInt8) :
    Except Exn (HKPacketMsg × List UInt8) := do
  let size ← newArray (length - 8)
  let (enData, input) := readInto size input
  match pf.aesDecode enData with
  | some decodes =>
    let (msg, _) ← readMsg decodes
    pure (msg, input)
  | none => pure (⟨0, 0, none⟩, input)

/-- The message is encrypted from version 3 on. -/
def readBody (pf : Platform) (version length : Int) (input : List UInt8) :
    Except Exn (HKPacketMsg × List UInt8) :=
  if 3 ≤ version then readEncryptedMsg pf length input else readMsg input

/-- The loop over `payload[i]` from `MAX_SIZE` up to the length. -/
def checkLoop (payload : List UInt8) (length : Int) : Except Exn UInt8 :=
  let stop := (length + headMaxSize - 1).toNat
  if headMaxSize < stop ∧ payload.length < stop then .error .indexOutOfBounds
  else .ok (checkOf ((payload.take stop).drop headMaxSize))

/-- The two heads of a payload. -/
def readHeads (pf : Platform) (payload : List UInt8) :
    Except Exn (HKPacketFromDeviceHead × HKPacketDataHead × List UInt8) := do
  let (version, input) ← readByte payload
  let (devType, input) ← readShort input
  let (sn, input) := readInto 20 input
  let (head, input) ← readShort input
  let (length, input) ← readShort input
  let (seq, input) ← readByte input
  let (funType, input) ← readByte input
  let msgDir := (BitVec.ofInt 32 funType &&& 0x0F).toInt
  let funType := ((BitVec.ofInt 32 funType &&& 0xF0).sshiftRight 4).toInt
  let (funName, input) ← readByte input
  pure (⟨version, devType, pf.newString sn⟩, ⟨head, length, seq, funType, msgDir, funName⟩, input)

/-- `decodeFromDevice`. A checksum that does not match is printed, nothing else. -/
def decodeFromDevice (pf : Platform) (payload : List UInt8) : Except Exn HKPacket := do
  let (base, dataHead, input) ← readHeads pf payload
  let (msg, input) ← readBody pf base.version dataHead.length input
  let (_checkSum, _) ← readByte input
  let _check ← checkLoop payload dataHead.length
  pure ⟨base, dataHead, msg⟩

/-- The heads of a payload that has them. -/
theorem readHeads_cons (pf : Platform) {sn : List UInt8} (hsn : sn.length = 20)
    (b0 b1 b2 h0 h1 l0 l1 s f n : UInt8) (rest : List UInt8) :
    readHeads pf (b0 :: b1 :: b2 :: (sn ++ h0 :: h1 :: l0 :: l1 :: s :: f :: n :: rest)) =
      .ok (⟨signed8 b0, signed16 b1 b2, pf.newString sn⟩,
        ⟨signed16 h0 h1, signed16 l0 l1, signed8 s,
          ((BitVec.ofInt 32 (signed8 f) &&& 0xF0).sshiftRight 4).toInt,
          (BitVec.ofInt 32 (signed8 f) &&& 0x0F).toInt, signed8 n⟩, rest) := by
  simp only [readHeads, readByte_cons, readShort_cons, bind, Except.bind, readInto_append hsn]
  rfl

/-! ## What is read of what was written -/

/-- The two nibbles come back. -/
theorem unpack_packFunType {funType msgDir : Int} (hf : 0 ≤ funType ∧ funType ≤ 15)
    (hd : 0 ≤ msgDir ∧ msgDir ≤ 15) :
    ((BitVec.ofInt 32 (signed8 (packFunType funType msgDir)) &&& 0xF0).sshiftRight 4).toInt = funType ∧
      (BitVec.ofInt 32 (signed8 (packFunType funType msgDir)) &&& 0x0F).toInt = msgDir := by
  have hall : ∀ f : Nat, f < 16 → ∀ d : Nat, d < 16 →
      ((BitVec.ofInt 32 (signed8 (packFunType f d)) &&& 0xF0).sshiftRight 4).toInt = f ∧
        (BitVec.ofInt 32 (signed8 (packFunType f d)) &&& 0x0F).toInt = d := by
    decide +kernel
  obtain ⟨f, rfl⟩ := Int.eq_ofNat_of_zero_le hf.1
  obtain ⟨d, rfl⟩ := Int.eq_ofNat_of_zero_le hd.1
  exact hall f (by omega) d (by omega)

/-- A serial number of ASCII characters comes back. -/
theorem newString_sn (pf : Platform) {sn : List UInt16} (h : ∀ c ∈ sn, c.toNat < 128) :
    pf.newString (sn.map UInt16.toUInt8) = sn := by
  have hlow : ∀ c ∈ sn, c.toUInt8.toNat = c.toNat := by
    intro c hc
    rw [UInt16.toNat_toUInt8]
    exact Nat.mod_eq_of_lt (Nat.lt_trans (h c hc) (by decide))
  have hback : ∀ c ∈ sn, (UInt8.toUInt16 ∘ UInt16.toUInt8) c = id c := by
    intro c hc
    apply UInt16.toNat_inj.mp
    rw [Function.comp_apply, UInt8.toNat_toUInt16, hlow c hc, id]
  rw [pf.newString_ascii, List.map_map]
  · exact (List.map_congr_left hback).trans (List.map_id sn)
  · intro b hb
    obtain ⟨c, hc, rfl⟩ := List.mem_map.mp hb
    rw [hlow c hc]
    exact h c hc

/-- The fields a packet is specified for. -/
structure InRange (b : HKPacketFromDeviceHead) (d : HKPacketDataHead) (m : HKPacketMsg)
    (message : List UInt8) : Prop where
  sn_length : b.sn.length = 20
  sn_ascii : ∀ c ∈ b.sn, c.toNat < 128
  devType : 0 ≤ b.devType ∧ b.devType ≤ 65535
  seq : 0 ≤ d.seq ∧ d.seq ≤ 255
  funName : 0 ≤ d.funName ∧ d.funName ≤ 255
  funType : 0 ≤ d.funType ∧ d.funType ≤ 15
  msgDir : 0 ≤ d.msgDir ∧ d.msgDir ≤ 15
  function : 0 ≤ m.function ∧ m.function ≤ 255
  format : 0 ≤ m.format ∧ m.format ≤ 255
  message_eq : m.message = some message
  message_length : message.length ≤ 64512

/-- A value through two bytes. -/
def short (v : Int) : Int := (v + 32768) % 65536 - 32768

/-- A value through one byte. -/
def byte (v : Int) : Int := signed8 (UInt8.ofInt v)

/-- What comes back of a packet, every field through the reader that reads it. -/
def received (b : HKPacketFromDeviceHead) (d : HKPacketDataHead) (m : HKPacketMsg) : HKPacket where
  base := ⟨1, short b.devType, b.sn⟩
  dataHead := ⟨short d.head, short (encodedDataHead d m).length, byte d.seq, d.funType, d.msgDir,
    byte d.funName⟩
  msg := ⟨byte m.function, byte m.format, m.message⟩

section

variable {b : HKPacketFromDeviceHead} {d : HKPacketDataHead} {m : HKPacketMsg} {message : List UInt8}

theorem toBytes_msg (h : m.message = some message) :
    m.toBytes = UInt8.ofInt m.function :: UInt8.ofInt m.format ::
      UInt8.ofInt ((message.length : Int) / 256) :: UInt8.ofInt message.length :: message := by
  rw [HKPacketMsg.toBytes, h]
  rfl

theorem length_toBytes_msg (h : m.message = some message) : m.toBytes.length = message.length + 4 := by
  rw [toBytes_msg h]
  rfl

theorem length_encode (h : InRange b d m message) : (encode b d m).length = message.length + 35 := by
  have hsn := h.sn_length
  have hmsg := length_toBytes_msg h.message_eq
  simp only [encode, encodedBase, encodedDataHead, HKPacketFromDeviceHead.toBytes,
    HKPacketDataHead.toBytes, List.length_append, List.length_map, length_writeByte,
    length_writeShort, List.length_singleton, hsn, hmsg]
  omega

/-- The loop over the checksum stays in what `encode` wrote. -/
theorem checkLoop_encode (h : InRange b d m message) :
    ∃ check, checkLoop (encode b d m) (short (encodedDataHead d m).length) = .ok check := by
  have hlen := length_encode h
  have hmsg := length_toBytes_msg h.message_eq
  have hshort : short (encodedDataHead d m).length ≤ (message.length : Int) + 12 := by
    simp only [short, encodedDataHead, hmsg, headLength]
    omega
  rw [checkLoop, if_neg (by rw [hlen, headMaxSize]; omega)]
  exact ⟨_, rfl⟩

theorem readMsg_toBytes (h : m.message = some message) (hlen : message.length < 32768)
    (rest : List UInt8) :
    readMsg (m.toBytes ++ rest) = .ok (⟨byte m.function, byte m.format, m.message⟩, rest) := by
  have hsize : newArray (signed16 (UInt8.ofInt ((message.length : Int) / 256))
      (UInt8.ofInt message.length)) = .ok message.length := by
    rw [newArray_eq_ok, signed16_ofInt_eq_iff]
    omega
  rw [toBytes_msg h, h]
  simp only [readMsg, List.cons_append, readByte_cons, readShort_cons, bind, Except.bind, hsize,
    readInto_append rfl]
  rfl

/-- A length with the sign bit set is taken for a negative one. -/
theorem readMsg_toBytes_of_ge (h : m.message = some message) (hge : 32768 ≤ message.length)
    (hle : message.length ≤ 64512) (rest : List UInt8) :
    readMsg (m.toBytes ++ rest) = .error .negativeArraySize := by
  have hsize : newArray (signed16 (UInt8.ofInt ((message.length : Int) / 256))
      (UInt8.ofInt message.length)) = .error .negativeArraySize := by
    rw [newArray, signed16_ofInt, if_pos (by omega)]
  rw [toBytes_msg h]
  simp only [readMsg, List.cons_append, readByte_cons, readShort_cons, bind, Except.bind, hsize]

/-- What `encode` wrote, as the readers take it apart. -/
theorem encode_eq (b : HKPacketFromDeviceHead) (d : HKPacketDataHead) (m : HKPacketMsg) :
    encode b d m = 1 :: UInt8.ofInt (b.devType / 256) :: UInt8.ofInt b.devType ::
      (b.sn.map UInt16.toUInt8 ++
        UInt8.ofInt (d.head / 256) :: UInt8.ofInt d.head ::
        UInt8.ofInt ((encodedDataHead d m).length / 256) ::
        UInt8.ofInt (encodedDataHead d m).length :: UInt8.ofInt d.seq ::
        packFunType d.funType d.msgDir :: UInt8.ofInt d.funName ::
        (m.toBytes ++ [checkOf ((encodedDataHead d m).toBytes ++ m.toBytes)])) := by
  simp only [encode, encodedBase, HKPacketFromDeviceHead.toBytes]
  simp [HKPacketDataHead.toBytes, writeByte, writeShort, encodedDataHead]

/-- The heads of what `encode` wrote. -/
theorem readHeads_encode (pf : Platform) (h : InRange b d m message) :
    readHeads pf (encode b d m) = .ok ((received b d m).base, (received b d m).dataHead,
      m.toBytes ++ [checkOf ((encodedDataHead d m).toBytes ++ m.toBytes)]) := by
  obtain ⟨hfun, hdir⟩ := unpack_packFunType h.funType h.msgDir
  have hone : signed8 1 = 1 := by decide
  rw [encode_eq, readHeads_cons pf (by rw [List.length_map, h.sn_length])]
  simp only [hone, hfun, hdir, newString_sn pf h.sn_ascii, signed16_ofInt, received, short, byte]

/-- What `decodeFromDevice` makes of what `encode` wrote. -/
theorem decodeFromDevice_encode (pf : Platform) (h : InRange b d m message) :
    decodeFromDevice pf (encode b d m) =
      if message.length < 32768 then .ok (received b d m) else .error .negativeArraySize := by
  have hversion : ¬(3 : Int) ≤ (received b d m).base.version := by
    show ¬(3 : Int) ≤ 1
    decide
  rw [decodeFromDevice, readHeads_encode pf h]
  simp only [bind, Except.bind, readBody, if_neg hversion]
  by_cases hlt : message.length < 32768
  · obtain ⟨check, hcheck⟩ := checkLoop_encode h
    rw [readMsg_toBytes h.message_eq hlt, if_pos hlt]
    simp only [readByte_cons]
    rw [show (received b d m).dataHead.length = short (encodedDataHead d m).length from rfl, hcheck]
    rfl
  · rw [readMsg_toBytes_of_ge h.message_eq (by omega) h.message_length, if_neg hlt]

end

/-! ## Which payloads lead to a packet -/

/-- A message whose length is there and is not negative. -/
def ReadableMsg (text : List UInt8) : Prop :=
  4 ≤ text.length ∧ 0 ≤ signed16 (text.getD 2 0) (text.getD 3 0)

/-- A payload in which every reader finds its bytes: the lengths are not negative, and the payload is
as long as they say. -/
def Readable (pf : Platform) (payload : List UInt8) : Prop :=
  let length := signed16 (payload.getD 25 0) (payload.getD 26 0)
  if 3 ≤ signed8 (payload.getD 0 0) then
    8 ≤ length ∧ length + 23 ≤ payload.length ∧
      ∀ text, pf.aesDecode ((payload.drop 30).take (length - 8).toNat) = some text → ReadableMsg text
  else
    ReadableMsg (payload.drop 30) ∧
      35 + signed16 (payload.getD 32 0) (payload.getD 33 0) ≤ payload.length ∧
      length + 22 ≤ payload.length

theorem readMsg_eq_ok_iff {input rest : List UInt8} :
    (∃ msg, readMsg input = .ok (msg, rest)) ↔
      ReadableMsg input ∧
        rest = input.drop (4 + (signed16 (input.getD 2 0) (input.getD 3 0)).toNat) := by
  constructor
  · rintro ⟨msg, h⟩
    simp only [readMsg, bind_eq_ok, Prod.exists, readByte_eq_ok, readShort_eq_ok, newArray_eq_ok] at h
    obtain ⟨_, _, ⟨b0, rfl, -⟩, _, _, ⟨b1, rfl, -⟩, _, _, ⟨hi, lo, rfl, rfl⟩, size, hsize, hpure⟩ := h
    cases hpure
    simp only [ReadableMsg, List.getD_cons_succ, List.getD_cons_zero, hsize, Int.toNat_natCast,
      Nat.add_comm 4, List.drop_succ_cons]
    refine ⟨⟨?_, Int.natCast_nonneg size⟩, rfl⟩
    simp only [List.length_cons]
    omega
  · rintro ⟨⟨hlen, hpos⟩, rfl⟩
    obtain ⟨b0, b1, hi, lo, more, rfl⟩ : ∃ b0 b1 hi lo more, input = b0 :: b1 :: hi :: lo :: more := by
      match input with
      | b0 :: b1 :: hi :: lo :: more => exact ⟨b0, b1, hi, lo, more, rfl⟩
      | [] | [_] | [_, _] | [_, _, _] => simp at hlen
    simp only [List.getD_cons_succ, List.getD_cons_zero] at hpos ⊢
    have hsize : newArray (signed16 hi lo) = .ok (signed16 hi lo).toNat := by
      rw [newArray_eq_ok]
      exact (Int.toNat_of_nonneg hpos).symm
    refine ⟨⟨signed8 b0, signed8 b1, some (readInto (signed16 hi lo).toNat more).1⟩, ?_⟩
    simp only [readMsg, readByte_cons, readShort_cons, bind, Except.bind, hsize, Nat.add_comm 4,
      List.drop_succ_cons]
    rfl

/-- The heads have thirty bytes. -/
theorem length_of_readHeads {pf : Platform} {payload : List UInt8}
    {r : HKPacketFromDeviceHead × HKPacketDataHead × List UInt8}
    (h : readHeads pf payload = .ok r) : 30 ≤ payload.length := by
  simp only [readHeads, bind_eq_ok, Prod.exists, readByte_eq_ok, readShort_eq_ok] at h
  obtain ⟨_, _, ⟨_, rfl, -⟩, _, _, ⟨_, _, rfl, -⟩, _, _, ⟨_, _, hhead, -⟩, _, _, ⟨_, _, rfl, -⟩,
    _, _, ⟨_, rfl, -⟩, _, _, ⟨_, rfl, -⟩, _, _, ⟨_, rfl, -⟩, -⟩ := h
  have hlen := congrArg List.length hhead
  simp only [readInto, List.length_drop, List.length_cons] at hlen
  simp only [List.length_cons]
  omega

/-- The bytes of the heads, one by one. -/
theorem exists_heads {payload : List UInt8} (h : 30 ≤ payload.length) :
    ∃ b0 b1 b2 sn h0 h1 l0 l1 s f n rest, sn.length = 20 ∧
      payload = b0 :: b1 :: b2 :: (sn ++ h0 :: h1 :: l0 :: l1 :: s :: f :: n :: rest) := by
  match payload, h with
  | b0 :: b1 :: b2 :: more, hlen =>
    have hmore : 7 ≤ (more.drop 20).length := by
      rw [List.length_drop]
      simp only [List.length_cons] at hlen
      omega
    match hdrop : more.drop 20, hmore with
    | h0 :: h1 :: l0 :: l1 :: s :: f :: n :: rest, _ =>
      refine ⟨b0, b1, b2, more.take 20, h0, h1, l0, l1, s, f, n, rest, ?_, ?_⟩
      · rw [List.length_take]
        simp only [List.length_cons] at hlen
        omega
      · rw [← hdrop, List.take_append_drop]

/-- What the readers of the heads leave to do. -/
theorem readHeads_of_length (pf : Platform) {payload : List UInt8} (h : 30 ≤ payload.length) :
    ∃ base dataHead, readHeads pf payload = .ok (base, dataHead, payload.drop 30) ∧
      base.version = signed8 (payload.getD 0 0) ∧
      dataHead.length = signed16 (payload.getD 25 0) (payload.getD 26 0) := by
  obtain ⟨b0, b1, b2, sn, h0, h1, l0, l1, s, f, n, rest, hsn, rfl⟩ := exists_heads h
  have hdrop : (sn ++ h0 :: h1 :: l0 :: l1 :: s :: f :: n :: rest).drop 27 = rest := by
    rw [List.drop_append, List.drop_of_length_le (by omega), hsn]
    rfl
  have hget : ∀ k, (sn ++ h0 :: h1 :: l0 :: l1 :: s :: f :: n :: rest).getD (k + 20) 0 =
      (h0 :: h1 :: l0 :: l1 :: s :: f :: n :: rest).getD k 0 := by
    intro k
    rw [List.getD_append_right _ _ _ _ (by omega), hsn, Nat.add_sub_cancel]
  rw [readHeads_cons pf hsn, List.drop_succ_cons, List.drop_succ_cons, List.drop_succ_cons, hdrop]
  refine ⟨_, _, rfl, rfl, ?_⟩
  simp only [List.getD_cons_succ, hget 2, hget 3, List.getD_cons_zero]

theorem readByte_isOk_iff {input : List UInt8} : (∃ r, readByte input = .ok r) ↔ 0 < input.length := by
  cases input with
  | nil => simp [readByte]
  | cons b rest => simp

theorem checkLoop_isOk_iff {payload : List UInt8} {length : Int} (h : 23 ≤ payload.length) :
    (∃ check, checkLoop payload length = .ok check) ↔ length + 22 ≤ payload.length := by
  rw [checkLoop, headMaxSize]
  split
  · simp only [reduceCtorEq, exists_false, false_iff]
    omega
  · simp only [Except.ok.injEq, exists_eq', true_iff]
    omega

/-- The rest of an unencrypted payload is read. -/
theorem readRest_isOk_iff {payload : List UInt8} {length : Int} (h : 30 ≤ payload.length) :
    (∃ msg input, readMsg (payload.drop 30) = .ok (msg, input) ∧ (∃ r, readByte input = .ok r) ∧
        ∃ check, checkLoop payload length = .ok check) ↔
      ReadableMsg (payload.drop 30) ∧
        35 + signed16 (payload.getD 32 0) (payload.getD 33 0) ≤ payload.length ∧
        length + 22 ≤ payload.length := by
  have hget : ∀ k, (payload.drop 30).getD k 0 = payload.getD (k + 30) 0 := by
    intro k
    rw [List.getD_eq_getElem?_getD, List.getD_eq_getElem?_getD, List.getElem?_drop, Nat.add_comm]
  have hread := @readMsg_eq_ok_iff (payload.drop 30)
  simp only [hget, ReadableMsg, List.length_drop, Nat.reduceAdd] at hread
  rw [checkLoop_isOk_iff (by omega)]
  simp only [readByte_isOk_iff, ReadableMsg, hget, List.length_drop, Nat.reduceAdd]
  constructor
  · rintro ⟨msg, input, hmsg, hpos, hcheck⟩
    obtain ⟨⟨h4, hge⟩, rfl⟩ := hread.mp ⟨msg, hmsg⟩
    rw [List.length_drop, List.length_drop] at hpos
    exact ⟨⟨h4, hge⟩, by omega, hcheck⟩
  · rintro ⟨⟨h4, hge⟩, hlen, hcheck⟩
    obtain ⟨msg, hmsg⟩ := hread.mpr ⟨⟨h4, hge⟩, rfl⟩
    refine ⟨msg, _, hmsg, ?_, hcheck⟩
    rw [List.length_drop, List.length_drop]
    omega

/-- The rest of an encrypted one. -/
theorem readEncryptedRest_isOk_iff (pf : Platform) {payload : List UInt8} {length : Int}
    (h : 30 ≤ payload.length) :
    (∃ msg input, readEncryptedMsg pf length (payload.drop 30) = .ok (msg, input) ∧
        (∃ r, readByte input = .ok r) ∧ ∃ check, checkLoop payload length = .ok check) ↔
      8 ≤ length ∧ length + 23 ≤ payload.length ∧
        ∀ text, pf.aesDecode ((payload.drop 30).take (length - 8).toNat) = some text →
          ReadableMsg text := by
  rw [checkLoop_isOk_iff (by omega)]
  simp only [readByte_isOk_iff]
  constructor
  · rintro ⟨msg, input, hmsg, hpos, -⟩
    rw [readEncryptedMsg, bind_eq_ok] at hmsg
    obtain ⟨size, hsize, hmsg⟩ := hmsg
    rw [newArray_eq_ok] at hsize
    have hinput : input = (payload.drop 30).drop size := by
      revert hmsg
      simp only [readInto]
      split
      · rw [bind_eq_ok]
        rintro ⟨_, _, hpure⟩
        cases hpure
        rfl
      · intro hpure
        cases hpure
        rfl
    rw [hinput, List.length_drop, List.length_drop] at hpos
    have hpad : size - (payload.drop 30).length = 0 := by
      rw [List.length_drop]
      omega
    refine ⟨by omega, by omega, fun text htext => ?_⟩
    simp only [readInto, hpad, List.replicate_zero, List.append_nil] at hmsg
    rw [hsize, Int.toNat_natCast] at htext
    rw [htext] at hmsg
    obtain ⟨⟨inner, rest⟩, hinner, -⟩ := bind_eq_ok.mp hmsg
    exact (readMsg_eq_ok_iff.mp ⟨inner, hinner⟩).1
  · rintro ⟨h8, hlen, htext⟩
    have hsize : newArray (length - 8) = .ok (length - 8).toNat := by
      rw [newArray_eq_ok]
      omega
    have hpad : (length - 8).toNat - (payload.drop 30).length = 0 := by
      rw [List.length_drop]
      omega
    have hpos : 0 < ((payload.drop 30).drop (length - 8).toNat).length := by
      rw [List.length_drop, List.length_drop]
      omega
    simp only [readEncryptedMsg, hsize, readInto, hpad, List.replicate_zero, List.append_nil, bind,
      Except.bind]
    cases hdec : pf.aesDecode ((payload.drop 30).take (length - 8).toNat) with
    | none => exact ⟨_, _, rfl, hpos, by omega⟩
    | some text =>
      obtain ⟨msg, hmsg⟩ := readMsg_eq_ok_iff.mpr ⟨htext text hdec, rfl⟩
      simp only [hmsg]
      exact ⟨_, _, rfl, hpos, by omega⟩

/-- Exactly the readable payloads lead to a packet, whatever their checksum. -/
theorem decodeFromDevice_isOk_iff (pf : Platform) (payload : List UInt8) :
    (∃ p, decodeFromDevice pf payload = .ok p) ↔ Readable pf payload := by
  by_cases hlen : 30 ≤ payload.length
  · obtain ⟨base, dataHead, hheads, hversion, hlength⟩ := readHeads_of_length pf hlen
    have hrest : (∃ p, decodeFromDevice pf payload = .ok p) ↔
        ∃ msg input,
          readBody pf base.version dataHead.length (payload.drop 30) = .ok (msg, input) ∧
          (∃ r, readByte input = .ok r) ∧
          ∃ check, checkLoop payload dataHead.length = .ok check := by
      rw [decodeFromDevice, hheads]
      simp only [bind_eq_ok, Except.ok.injEq, exists_eq_left', Prod.exists]
      constructor
      · rintro ⟨p, msg, input, hmsg, v, rest, hr, check, hcheck, -⟩
        exact ⟨msg, input, hmsg, ⟨v, rest, hr⟩, check, hcheck⟩
      · rintro ⟨msg, input, hmsg, ⟨v, rest, hr⟩, check, hcheck⟩
        exact ⟨_, msg, input, hmsg, v, rest, hr, check, hcheck, rfl⟩
    simp only [hrest, readBody, Readable, hversion, hlength]
    split
    · exact readEncryptedRest_isOk_iff pf hlen
    · exact readRest_isOk_iff hlen
  · constructor
    · rintro ⟨p, hp⟩
      rw [decodeFromDevice, bind_eq_ok] at hp
      obtain ⟨r, hr, -⟩ := hp
      exact absurd (length_of_readHeads hr) hlen
    · intro h
      rw [Readable] at h
      split at h
      · omega
      · have := h.1.1
        rw [List.length_drop] at this
        omega

/-! ## Round trip and checksum -/

/-- The fields a caller sets are those of the packet that came back. -/
def SameFields (p : HKPacket) (b : HKPacketFromDeviceHead) (d : HKPacketDataHead) (m : HKPacketMsg) :
    Prop :=
  p.base.devType = b.devType ∧ p.base.sn = b.sn ∧ p.dataHead.seq = d.seq ∧
    p.dataHead.funType = d.funType ∧ p.dataHead.msgDir = d.msgDir ∧ p.dataHead.funName = d.funName ∧
    p.msg = m

/-- No field that a caller sets needs the sign bit of its reader. -/
structure NoSignBit (b : HKPacketFromDeviceHead) (d : HKPacketDataHead) (m : HKPacketMsg)
    (message : List UInt8) : Prop where
  devType : b.devType < 32768
  seq : d.seq < 128
  funName : d.funName < 128
  function : m.function < 128
  format : m.format < 128
  message : message.length < 32768

/-- Nor do the two fields that `encode` and the class set. -/
def NoSignBitInHead (d : HKPacketDataHead) (message : List UInt8) : Prop :=
  -32768 ≤ d.head ∧ d.head < 32768 ∧ message.length + 12 < 32768

/-- The last byte of a payload is not the checksum of what stands between the head and it. -/
def WrongChecksum (payload : List UInt8) : Prop :=
  ∃ head serial check, payload = head ++ serial ++ [check] ∧ head.length = headMaxSize ∧
    check ≠ checkOf serial

section

variable {b : HKPacketFromDeviceHead} {d : HKPacketDataHead} {m : HKPacketMsg} {message : List UInt8}

theorem short_eq_iff (v : Int) : short v = v ↔ -32768 ≤ v ∧ v < 32768 := by
  rw [short]
  omega

theorem byte_eq_iff (v : Int) : byte v = v ↔ -128 ≤ v ∧ v < 128 := signed8_ofInt_eq_iff v

theorem received_msg_eq_iff : (received b d m).msg = m ↔
    byte m.function = m.function ∧ byte m.format = m.format := by
  cases m
  simp [received]

/-- The fields a caller sets come back if none needs the sign bit, and only then. -/
theorem sameFields_iff_noSignBit (pf : Platform) (h : InRange b d m message) :
    (∃ p, decodeFromDevice pf (encode b d m) = .ok p ∧ SameFields p b d m) ↔
      NoSignBit b d m message := by
  have h1 := h.devType
  have h2 := h.seq
  have h3 := h.funName
  have h4 := h.function
  have h5 := h.format
  rw [decodeFromDevice_encode pf h]
  constructor
  · rintro ⟨p, hp, hsame⟩
    split at hp
    · next hlen =>
      cases hp
      obtain ⟨hdev, -, hseq, -, -, hname, hmsg⟩ := hsame
      rw [received_msg_eq_iff, byte_eq_iff, byte_eq_iff] at hmsg
      have hdev := (short_eq_iff _).mp hdev
      have hseq := (byte_eq_iff _).mp hseq
      have hname := (byte_eq_iff _).mp hname
      exact ⟨hdev.2, hseq.2, hname.2, hmsg.1.2, hmsg.2.2, hlen⟩
    · cases hp
  · intro hno
    rw [if_pos hno.message]
    refine ⟨_, rfl, (short_eq_iff _).mpr ⟨by omega, hno.devType⟩, rfl,
      (byte_eq_iff _).mpr ⟨by omega, hno.seq⟩, rfl, rfl,
      (byte_eq_iff _).mpr ⟨by omega, hno.funName⟩, received_msg_eq_iff.mpr ⟨?_, ?_⟩⟩
    · exact (byte_eq_iff _).mpr ⟨by omega, hno.function⟩
    · exact (byte_eq_iff _).mpr ⟨by omega, hno.format⟩

/-- Every field comes back if the marker and the length do not need it either. -/
theorem decodeFromDevice_encode_eq_iff (pf : Platform) (h : InRange b d m message) :
    decodeFromDevice pf (encode b d m) = .ok ⟨encodedBase b, encodedDataHead d m, m⟩ ↔
      NoSignBit b d m message ∧ NoSignBitInHead d message := by
  have hlen : (encodedDataHead d m).length = message.length + 12 := by
    simp only [encodedDataHead, length_toBytes_msg h.message_eq, headLength]
    omega
  constructor
  · intro heq
    have hno := (sameFields_iff_noSignBit pf h).mp ⟨_, heq, rfl, rfl, rfl, rfl, rfl, rfl, rfl⟩
    rw [decodeFromDevice_encode pf h, if_pos hno.message, Except.ok.injEq] at heq
    have hhead : short d.head = d.head := congrArg (fun p => p.dataHead.head) heq
    have hlength : short (encodedDataHead d m).length = (encodedDataHead d m).length :=
      congrArg (fun p => p.dataHead.length) heq
    rw [short_eq_iff] at hhead hlength
    exact ⟨hno, hhead.1, hhead.2, by omega⟩
  · rintro ⟨hno, hhead, hhead', hlength⟩
    obtain ⟨p, hp, hdev, hsn, hseq, -, -, hname, hmsg⟩ := (sameFields_iff_noSignBit pf h).mpr hno
    rw [decodeFromDevice_encode pf h, if_pos hno.message] at hp ⊢
    cases hp
    have hlen' : short (encodedDataHead d m).length = (encodedDataHead d m).length := by
      rw [short_eq_iff]
      omega
    have hhead : short d.head = d.head := (short_eq_iff _).mpr ⟨hhead, hhead'⟩
    have hbase : (received b d m).base = encodedBase b := by
      show (⟨1, short b.devType, b.sn⟩ : HKPacketFromDeviceHead) = _
      rw [show short b.devType = b.devType from hdev]
      rfl
    have hdata : (received b d m).dataHead = encodedDataHead d m := by
      show (⟨short d.head, short (encodedDataHead d m).length, byte d.seq, d.funType, d.msgDir,
        byte d.funName⟩ : HKPacketDataHead) = _
      rw [hhead, hlen', show byte d.seq = d.seq from hseq, show byte d.funName = d.funName from hname]
      rfl
    have heq : received b d m =
        ⟨(received b d m).base, (received b d m).dataHead, (received b d m).msg⟩ := rfl
    rw [heq, hbase, hdata, hmsg]

/-- Packets and payloads on every platform. What was encoded is decoded to the same fields if no field
needs the sign bit of the reader that reads it, and only then (the marker and the length among them,
if these count too); and a payload with a wrong checksum leads to no packet only if its lengths
already make a reader fail. -/
theorem decodeFromDevice_meets_iff (pf : Platform) :
    (∀ (b : HKPacketFromDeviceHead) (d : HKPacketDataHead) (m : HKPacketMsg) (message : List UInt8),
      InRange b d m message →
      ((∃ p, decodeFromDevice pf (encode b d m) = .ok p ∧ SameFields p b d m) ↔
        NoSignBit b d m message) ∧
      (decodeFromDevice pf (encode b d m) = .ok ⟨encodedBase b, encodedDataHead d m, m⟩ ↔
        NoSignBit b d m message ∧ NoSignBitInHead d message)) ∧
    (∀ payload : List UInt8, WrongChecksum payload →
      ((∀ p, decodeFromDevice pf payload ≠ .ok p) ↔ ¬Readable pf payload)) :=
  ⟨fun _ _ _ _ h => ⟨sameFields_iff_noSignBit pf h, decodeFromDevice_encode_eq_iff pf h⟩,
    fun payload _ => by rw [← decodeFromDevice_isOk_iff, not_exists]⟩

end

/-- A platform without the native library. -/
def plainPlatform : Platform := ⟨fun bytes => bytes.map UInt8.toUInt16, fun _ => none, fun _ _ => rfl⟩

/-- A device that reports two bytes. -/
def sampleBase : HKPacketFromDeviceHead := ⟨0, 7, List.replicate 20 65⟩

def sampleHead (seq : Int) : HKPacketDataHead := ⟨0xEEEE, 0, seq, 2, 0, 3⟩

def sampleMsg : HKPacketMsg := ⟨1, 2, some [10, 20]⟩

theorem sample_inRange (seq : Int) (h : 0 ≤ seq ∧ seq ≤ 255) :
    InRange sampleBase (sampleHead seq) sampleMsg [10, 20] := by
  have hascii : ∀ c ∈ sampleBase.sn, c.toNat < 128 := by
    intro c hc
    rw [List.eq_of_mem_replicate hc]
    exact of_decide_eq_true rfl
  refine ⟨rfl, hascii, by decide, h, ?_, ?_, ?_, by decide, by decide, rfl, by decide⟩ <;>
  · constructor <;> exact of_decide_eq_true rfl

theorem decodeFromDevice_meets_iff_sample :
    (∃ p, decodeFromDevice plainPlatform (encode sampleBase (sampleHead 5) sampleMsg) = .ok p ∧
      SameFields p sampleBase (sampleHead 5) sampleMsg) ∧
    ∀ p, decodeFromDevice plainPlatform (List.replicate 23 0 ++ [] ++ [1]) ≠ .ok p :=
  ⟨((decodeFromDevice_meets_iff plainPlatform).1 _ _ _ _
      (sample_inRange 5 (by decide))).1.mpr ⟨by decide, by decide, by decide, by decide, by decide,
        by decide⟩,
    ((decodeFromDevice_meets_iff plainPlatform).2 _
      ⟨List.replicate 23 0, [], 1, rfl, rfl, by decide⟩).mpr
      (by rw [Readable, if_neg (by decide)]; exact fun h => absurd h.1.1 (by decide))⟩

/-- The sequence number 200 comes back as -56, and the packet also comes back when its checksum is
replaced by another byte. -/
theorem decodeFromDevice_signed_and_unchecked :
    InRange sampleBase (sampleHead 200) sampleMsg [10, 20] ∧
    (∀ p, decodeFromDevice plainPlatform (encode sampleBase (sampleHead 200) sampleMsg) = .ok p →
      p.dataHead.seq = -56 ∧ ¬SameFields p sampleBase (sampleHead 200) sampleMsg) ∧
    WrongChecksum ((encode sampleBase (sampleHead 5) sampleMsg).dropLast ++ [0]) ∧
    ∃ p, decodeFromDevice plainPlatform
      ((encode sampleBase (sampleHead 5) sampleMsg).dropLast ++ [0]) = .ok p := by
  have hdec : decodeFromDevice plainPlatform (encode sampleBase (sampleHead 200) sampleMsg) =
      .ok (received sampleBase (sampleHead 200) sampleMsg) :=
    (decodeFromDevice_encode plainPlatform (sample_inRange 200 (by decide))).trans
      (if_pos (by decide))
  refine ⟨sample_inRange 200 (by decide), fun p hp => ?_, ?_, ?_⟩
  · rw [hdec] at hp
    cases hp
    refine ⟨by decide +kernel, fun hsame => ?_⟩
    exact absurd hsame.2.2.1 (by decide +kernel)
  · refine ⟨(encode sampleBase (sampleHead 5) sampleMsg).take 23,
      ((encode sampleBase (sampleHead 5) sampleMsg).drop 23).dropLast, 0, ?_, ?_, ?_⟩ <;>
    decide +kernel
  · apply (decodeFromDevice_isOk_iff plainPlatform _).mpr
    rw [Readable, if_neg (by decide +kernel)]
    refine ⟨⟨?_, ?_⟩, ?_, ?_⟩ <;> decide +kernel

end ProgrammingPath.Mqtt.HkPacket
