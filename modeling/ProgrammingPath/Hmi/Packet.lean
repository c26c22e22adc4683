import ProgrammingPath.Hmi.Client

/-!
# The packets of the HMI

A packet is a version, a tag, the length of what follows, and a body of its own: a key, the length
of the data and the data. `toByteArray` computes the first length from the second one, with four
bytes for the key and the length, and all lengths are `quint16`; so the first one is right for
bodies of up to 65531 bytes only.
-/

namespace ProgrammingPath.Hmi.Packet

/-! ## The source -/

structure MESPacketBody where
  key : UInt16 := 0
  length : UInt16 := 0
  data : List UInt8 := []
  deriving DecidableEq, Repr

/-- The two `setData`, for the bytes that `toLatin1` or `toJson` gives. -/
def MESPacketBody.setBytes (body : MESPacketBody) (bytes : List UInt8) : MESPacketBody :=
  { body with data := bytes, length := UInt16.ofNat bytes.length }

/-- The two constructors with data. -/
def MESPacketBody.ofBytes (key : UInt16) (bytes : List UInt8) : MESPacketBody :=
  MESPacketBody.setBytes { key } bytes

structure MESPacket where
  versions : UInt8
  tag : UInt8
  length : UInt16
  body : MESPacketBody
  deriving DecidableEq, Repr

/-- `MESPacket::MESPacket`. The tag is not set, it is what the memory held. -/
def MESPacket.fresh (tag : UInt8) : MESPacket := ⟨0, tag, 0, {}⟩

def MESPacket.setBody (p : MESPacket) (mbody : MESPacketBody) : MESPacket :=
  { p with
    body := { key := mbody.key, length := mbody.length, data := mbody.data ++ p.body.data }
    length := UInt16.ofNat (mbody.data.length + 2 + 2) }

def MESPacket.toByteArray (p : MESPacket) : List UInt8 :=
  let blength := UInt16.ofNat p.body.data.length
  let hlength := p.body.length + 4
  [p.versions, p.tag] ++ (be16 hlength ++ (be16 p.body.key ++ (be16 blength ++
    p.body.data.take blength.toNat)))

/-- `stream >> quint8`, 0 at the end. -/
def readQUint8 : List UInt8 → UInt8 × List UInt8
  | b :: rest => (b, rest)
  | [] => (0, [])

/-- `stream >> quint16`, 0 when less than two bytes are left. -/
def readQUint16 : List UInt8 → UInt16 × List UInt8
  | hi :: lo :: rest => (UInt16.ofNat (256 * hi.toNat + lo.toNat), rest)
  | _ => (0, [])

/-- `MESPacket::toMESPacket`. -/
def toMESPacket (msg : List UInt8) (packet : MESPacket) : Bool × MESPacket :=
  let (versions, stream) := readQUint8 msg
  let (tag, stream) := readQUint8 stream
  let (length, stream) := readQUint16 stream
  let (key, stream) := readQUint16 stream
  let (blength, _) := readQUint16 stream
  (true, {
    versions, tag, length
    body := { key, length := blength, data := packet.body.data ++ msg.drop (1 + 1 + 2 + 2 + 2) } })

/-! ## Reading what was written -/

theorem readQUint16_be16 (w : UInt16) (rest : List UInt8) :
    readQUint16 (be16 w ++ rest) = (w, rest) := by
  have hlt := w.toNat_lt
  have hword : 256 * (UInt8.ofNat (w.toNat / 256)).toNat + (UInt8.ofNat (w.toNat % 256)).toNat =
      w.toNat := by
    rw [UInt8.toNat_ofNat', UInt8.toNat_ofNat']
    omega
  show (UInt16.ofNat (256 * (UInt8.ofNat (w.toNat / 256)).toNat +
    (UInt8.ofNat (w.toNat % 256)).toNat), rest) = _
  rw [hword, UInt16.ofNat_toNat]

/-- Any packet, written and read. -/
theorem toMESPacket_toByteArray (p fresh : MESPacket) :
    toMESPacket p.toByteArray fresh =
      (true, {
        versions := p.versions, tag := p.tag, length := p.body.length + 4
        body := {
          key := p.body.key
          length := UInt16.ofNat p.body.data.length
          data := fresh.body.data ++ p.body.data.take (UInt16.ofNat p.body.data.length).toNat } }) := by
  unfold toMESPacket MESPacket.toByteArray
  simp only [List.cons_append, List.nil_append, readQUint8, readQUint16_be16]
  rfl

/-- The packet of `sendD2S` is the one that `setBody` makes. -/
theorem d2sPacket_toByteArray (tag t : UInt8) (key : UInt16) (msg : String) :
    (d2sPacket tag key msg).toByteArray =
      ({ MESPacket.fresh t with versions := 2, tag := tag }.setBody
        (.ofBytes key (toLatin1 msg))).toByteArray := by
  simp [d2sPacket, Hmi.MESPacket.setData, Hmi.MESPacket.toByteArray, MESPacket.toByteArray,
    MESPacket.setBody, MESPacket.fresh, MESPacketBody.ofBytes, MESPacketBody.setBytes]

/-! ## The round trip -/

/-- What is sent for a body with these bytes. -/
def sent (versions tag t : UInt8) (key : UInt16) (data : List UInt8) : List UInt8 :=
  ({ MESPacket.fresh t with versions, tag }.setBody (.ofBytes key data)).toByteArray

/-- The packet comes back as it was, and its length is the number of bytes behind the length. -/
structure ComesBack (versions tag : UInt8) (key : UInt16) (data msg : List UInt8)
    (got : MESPacket) : Prop where
  versions : got.versions = versions
  tag : got.tag = tag
  key : got.body.key = key
  blength : got.body.length.toNat = data.length
  data : got.body.data = data
  length : got.length.toNat = (msg.drop 4).length

theorem sent_eq (versions tag t : UInt8) (key : UInt16) (data : List UInt8) :
    sent versions tag t key data =
      MESPacket.toByteArray ⟨versions, tag, UInt16.ofNat (data.length + 4),
        ⟨key, UInt16.ofNat data.length, data⟩⟩ := by
  show MESPacket.toByteArray ⟨versions, tag, UInt16.ofNat (data.length + 2 + 2),
    ⟨key, UInt16.ofNat data.length, data ++ []⟩⟩ = _
  rw [List.append_nil]

theorem length_drop_sent (versions tag t : UInt8) (key : UInt16) (data : List UInt8) :
    ((sent versions tag t key data).drop 4).length = data.length % 65536 + 4 := by
  rw [sent_eq]
  show (be16 key ++ (be16 _ ++ data.take _)).length = _
  simp [be16, Nat.mod_le]

/-- What the reader makes of it. -/
theorem toMESPacket_sent (versions tag t t' : UInt8) (key : UInt16) (data : List UInt8) :
    (toMESPacket (sent versions tag t key data) (.fresh t')).2 =
      ⟨versions, tag, UInt16.ofNat data.length + 4,
        ⟨key, UInt16.ofNat data.length, data.take (data.length % 65536)⟩⟩ := by
  rw [sent_eq, toMESPacket_toByteArray, UInt16.toNat_ofNat']
  rfl

/-- For every version, tag, key and body. -/
theorem comesBack_iff (versions tag t t' : UInt8) (key : UInt16) (data : List UInt8) :
    ComesBack versions tag key data (sent versions tag t key data)
        (toMESPacket (sent versions tag t key data) (.fresh t')).2 ↔ data.length ≤ 65531 := by
  rw [toMESPacket_sent]
  have hannounced : (UInt16.ofNat data.length).toNat = data.length % 65536 := UInt16.toNat_ofNat'
  have hlength : (UInt16.ofNat data.length + 4).toNat = (data.length % 65536 + 4) % 65536 := by
    rw [UInt16.toNat_add, hannounced]
    rfl
  constructor
  · intro h
    have hblength := h.blength
    have hpacket := h.length
    rw [hannounced] at hblength
    rw [hlength, length_drop_sent] at hpacket
    omega
  · intro hle
    have hmod : data.length % 65536 = data.length := Nat.mod_eq_of_lt (by omega)
    exact {
      versions := rfl
      tag := rfl
      key := rfl
      blength := hannounced.trans hmod
      data := by rw [hmod, List.take_length]
      length := by
        rw [hlength, length_drop_sent]
        omega }

/-- A body that leaves no room for the four bytes: the packet announces a length of 0. -/
theorem not_comesBack_long :
    ¬ ComesBack 2 0x11 1 (List.replicate 65532 0x20) (sent 2 0x11 0 1 (List.replicate 65532 0x20))
      (toMESPacket (sent 2 0x11 0 1 (List.replicate 65532 0x20)) (.fresh 0)).2 := by
  intro h
  have hlength := h.length
  rw [toMESPacket_sent, length_drop_sent, List.length_replicate] at hlength
  cases hlength

end ProgrammingPath.Hmi.Packet
