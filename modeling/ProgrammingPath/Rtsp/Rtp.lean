import ProgrammingPath.Rtsp.SpsDecode

/-!
# RTP packets with H.264

What the loop in `RTSPClient_StreamRecv` does with a frame on channel 0: a packet with one NAL unit is
written behind a start code, and of a NAL unit in fragments (FU-A) the first one is written behind a start
code and the header made from its two bytes. A sequence parameter set in a packet of its own is decoded
before it is written, and decoding changes the bytes of the packet; one in fragments is not decoded.
-/

namespace ProgrammingPath.Rtsp

open ProgrammingPath.Lib

/-! ## What is done with a packet -/

/-- What `fwrite_nal_split` writes. -/
def fwriteNalSplit (nalType : UInt8) : List UInt8 :=
  if nalType &&& 0x1F = 6 ∨ nalType &&& 0x1F = 5 then [0, 0, 1] else [0, 0, 0, 1]

section

variable (mem : Mem) (off : Int) (len : Nat)

/-- A packet with one unit: the memory afterwards, and what is written. -/
def onSingle : Option (Mem × List UInt8) :=
  let decoded := if mem off &&& 0x1F = 7 then h264DecodeSps mem off len else some mem
  decoded.map fun mem => (mem, fwriteNalSplit (mem off) ++ mem.bytes off len)

/-- A fragment. One without its two bytes is written with a length below zero. -/
def onFragment (marker : Bool) : Option (Mem × List UInt8) :=
  if len < 2 then none
  else
    let data := mem.bytes (off + 2) (len - 2)
    if marker = false ∧ mem (off + 1) &&& 0x80 ≠ 0 then
      let nh := (mem off &&& 0x80) ||| (mem off &&& 0x60) ||| (mem (off + 1) &&& 0x1F)
      some (mem, fwriteNalSplit nh ++ nh :: data)
    else some (mem, data)

/-- What lies behind the headers of a packet. -/
def onPayload (marker : Bool) : Option (Mem × List UInt8) :=
  let type := mem off &&& 0x1F
  if 0 < type ∧ type < 24 then onSingle mem off len
  else if type = 28 then onFragment mem off len marker
  else some (mem, [])

/-- A complete frame on channel 0. Its length has 16 bits, also when it gets below zero. -/
def onRtp : Option (Mem × List UInt8) :=
  if mem 1 &&& 0x7F ≠ 96 then some (mem, [])
  else
    let extension : Int := if mem 0 &&& 0x10 ≠ 0 then 4 + 4 * ntohs (mem 14) (mem 15) else 0
    onPayload mem (12 + extension) ((len - 12 - extension) % 65536).toNat (mem 1 &&& 0x80 ≠ 0)

end

/-! ## Packets -/

/-- A NAL unit with a type that a packet can have by itself. -/
structure NalUnit where
  header : UInt8
  rest : List UInt8
  type_pos : 0 < header &&& 0x1F
  type_lt : header &&& 0x1F < 24
  rest_ne : rest ≠ []

def NalUnit.bytes (n : NalUnit) : List UInt8 := n.header :: n.rest

/-- What the file should have of a unit. -/
def NalUnit.written (n : NalUnit) : List UInt8 := fwriteNalSplit n.header ++ n.bytes

/-- A whole unit, the start of one, or what comes behind the start. The flags of a fragment are those
behind the start bit. -/
inductive Payload
  | single (n : NalUnit)
  | start (n : NalUnit) (flags : UInt8) (data : List UInt8)
  | next (n : NalUnit) (flags : UInt8) (data : List UInt8)

/-- The two bytes of a fragment. -/
def fuIndicator (n : NalUnit) : UInt8 := n.header &&& 0xE0 ||| 28

def fuHeader (startBit flags : UInt8) (n : NalUnit) : UInt8 :=
  startBit ||| flags &&& 0x60 ||| n.header &&& 0x1F

def Payload.bytes : Payload → List UInt8
  | .single n => n.bytes
  | .start n flags data => fuIndicator n :: fuHeader 0x80 flags n :: data
  | .next n flags data => fuIndicator n :: fuHeader 0 flags n :: data

/-- What the file should have of it. -/
def Payload.written : Payload → List UInt8
  | .single n => n.written
  | .start n _ data => fwriteNalSplit n.header ++ n.header :: data
  | .next _ _ data => data

/-- An extension header of so many words. -/
structure Extension where
  profileHi : UInt8
  profileLo : UInt8
  words : Nat
  data : List UInt8
  length_data : data.length = 4 * words
  words_lt : words < 65536

def Extension.bytes (e : Extension) : List UInt8 :=
  e.profileHi :: e.profileLo :: UInt8.ofNat (e.words / 256) :: UInt8.ofNat (e.words % 256) :: e.data

/-- A packet of payload type 96 with no padding and no contributing sources. The start of a unit has no
marker. -/
structure Packet where
  first : UInt8
  second : UInt8
  tail : List UInt8
  extension : Option Extension
  payload : Payload
  plain : first &&& 0x2F = 0
  extended : first &&& 0x10 ≠ 0 ↔ extension.isSome
  payload_type : second &&& 0x7F = 96
  start_marker : ∀ n flags data, payload = .start n flags data → second &&& 0x80 = 0
  length_tail : tail.length = 10
  length_lt : 12 + (extension.elim [] Extension.bytes).length + payload.bytes.length < 65536

def Packet.extensionBytes (p : Packet) : List UInt8 := p.extension.elim [] Extension.bytes

/-- What comes before the payload. -/
def Packet.headers (p : Packet) : List UInt8 := p.first :: p.second :: p.tail ++ p.extensionBytes

def Packet.bytes (p : Packet) : List UInt8 := p.headers ++ p.payload.bytes

/-! ## Two bytes of a fragment -/

theorem or_and (a b c : UInt8) : (a ||| b) &&& c = a &&& c ||| b &&& c := by
  apply UInt8.toBitVec_inj.mp
  rw [UInt8.toBitVec_and, UInt8.toBitVec_or, UInt8.toBitVec_or, UInt8.toBitVec_and,
    UInt8.toBitVec_and]
  exact BitVec.and_or_distrib_right

theorem fuIndicator_type (n : NalUnit) : fuIndicator n &&& 0x1F = 28 := by
  rw [fuIndicator, or_and, UInt8.and_assoc, show (0xE0 : UInt8) &&& 0x1F = 0 from rfl, UInt8.and_zero]
  rfl

theorem fuHeader_start (flags : UInt8) (n : NalUnit) : fuHeader 0x80 flags n &&& 0x80 = 0x80 := by
  rw [fuHeader, or_and, or_and, UInt8.and_assoc, UInt8.and_assoc,
    show (0x60 : UInt8) &&& 0x80 = 0 from rfl, show (0x1F : UInt8) &&& 0x80 = 0 from rfl,
    UInt8.and_zero, UInt8.and_zero]
  rfl

theorem fuHeader_next (flags : UInt8) (n : NalUnit) : fuHeader 0 flags n &&& 0x80 = 0 := by
  rw [fuHeader, or_and, or_and, UInt8.and_assoc, UInt8.and_assoc,
    show (0x60 : UInt8) &&& 0x80 = 0 from rfl, show (0x1F : UInt8) &&& 0x80 = 0 from rfl,
    UInt8.and_zero, UInt8.and_zero]
  rfl

/-- The header of the unit is made again. -/
theorem header_of_fragment (flags : UInt8) (n : NalUnit) :
    fuIndicator n &&& 0x80 ||| fuIndicator n &&& 0x60 ||| fuHeader 0x80 flags n &&& 0x1F =
      n.header := by
  have htype : fuHeader 0x80 flags n &&& 0x1F = n.header &&& 0x1F := by
    rw [fuHeader, or_and, or_and, UInt8.and_assoc, UInt8.and_assoc,
      show (0x60 : UInt8) &&& 0x1F = 0 from rfl, show (0x1F : UInt8) &&& 0x1F = 0x1F from rfl,
      show (0x80 : UInt8) &&& 0x1F = 0 from rfl, UInt8.and_zero, UInt8.or_zero, UInt8.zero_or]
  have hall : ∀ k < 256, (UInt8.ofNat k &&& 0xE0 ||| 28) &&& 0x80 |||
      (UInt8.ofNat k &&& 0xE0 ||| 28) &&& 0x60 ||| UInt8.ofNat k &&& 0x1F = UInt8.ofNat k := by
    decide +kernel
  have hheader := hall n.header.toNat n.header.toNat_lt
  rw [UInt8.ofNat_toNat] at hheader
  rw [htype, fuIndicator, hheader]

/-! ## The packet in memory -/

variable {mem mem' : Mem} {off : Int} {len : Nat}

theorem length_headers (p : Packet) : p.headers.length = 12 + p.extensionBytes.length := by
  simp only [Packet.headers, List.length_append, List.length_cons, p.length_tail]

theorem length_packet (p : Packet) :
    p.bytes.length = 12 + p.extensionBytes.length + p.payload.bytes.length := by
  rw [Packet.bytes, List.length_append, length_headers]

/-- The headers and the payload lie behind one another. -/
theorem packet_memory (p : Packet) (h : mem.bytes 0 p.bytes.length = p.bytes) :
    mem.bytes 0 12 = p.first :: p.second :: p.tail ∧
      mem.bytes 12 p.extensionBytes.length = p.extensionBytes ∧
      mem.bytes (12 + p.extensionBytes.length) p.payload.bytes.length = p.payload.bytes := by
  have hfixed : (p.first :: p.second :: p.tail).length = 12 := by
    rw [List.length_cons, List.length_cons, p.length_tail]
  rw [Packet.bytes, List.length_append] at h
  obtain ⟨hheaders, hpayload⟩ := Mem.bytes_eq_append mem h
  rw [Packet.headers, List.length_append] at hheaders
  obtain ⟨hfirst, hext⟩ := Mem.bytes_eq_append mem hheaders
  rw [hfixed] at hfirst hext
  rw [length_headers] at hpayload
  refine ⟨hfirst, ?_, ?_⟩
  · simpa using hext
  · simpa using hpayload

/-- The offset of the payload, as the loop finds it. -/
theorem extension_length (p : Packet) (h : mem.bytes 0 p.bytes.length = p.bytes) :
    (if mem 0 &&& 0x10 ≠ 0 then 4 + 4 * (ntohs (mem 14) (mem 15) : Int) else 0) =
      p.extensionBytes.length := by
  obtain ⟨hfixed, hext, -⟩ := packet_memory p h
  have h0 : mem 0 = p.first := by
    rw [Mem.bytes_succ, List.cons.injEq] at hfixed
    exact hfixed.1
  have hextended := p.extended
  rw [h0]
  cases he : p.extension with
  | none =>
    rw [he] at hextended
    rw [if_neg (fun hne => absurd (hextended.mp hne) (by simp)), Packet.extensionBytes, he]
    rfl
  | some e =>
    rw [he] at hextended
    have hbytes : p.extensionBytes = e.bytes := by rw [Packet.extensionBytes, he]; rfl
    have hlen : e.bytes.length = 4 + 4 * e.words := by
      simp only [Extension.bytes, List.length_cons, e.length_data]
      omega
    rw [hbytes, hlen, show 4 + 4 * e.words = 4 * e.words + 1 + 1 + 1 + 1 by omega, Mem.bytes_succ,
      Mem.bytes_succ, Mem.bytes_succ, Mem.bytes_succ, Extension.bytes] at hext
    simp only [List.cons.injEq] at hext
    have hwords := e.words_lt
    have hntohs : ntohs (mem 14) (mem 15) = e.words := by
      have h14 : mem 14 = UInt8.ofNat (e.words / 256) := hext.2.2.1
      have h15 : mem 15 = UInt8.ofNat (e.words % 256) := hext.2.2.2.1
      rw [h14, h15, ntohs, UInt8.toNat_ofNat', UInt8.toNat_ofNat', Nat.mod_eq_of_lt (by omega),
        Nat.mod_eq_of_lt (by omega)]
      omega
    rw [if_pos (hextended.mpr rfl), hntohs, hbytes, hlen]
    push_cast
    rfl

/-- What the loop does with a packet is what it does with the payload. -/
theorem onRtp_packet (p : Packet) (h : mem.bytes 0 p.bytes.length = p.bytes) :
    onRtp mem p.bytes.length =
      onPayload mem (12 + p.extensionBytes.length) p.payload.bytes.length
        (decide (p.second &&& 0x80 ≠ 0)) := by
  obtain ⟨hfixed, -, -⟩ := packet_memory p h
  have h1 : mem 1 = p.second := by
    rw [Mem.bytes_succ, Mem.bytes_succ] at hfixed
    simp only [List.cons.injEq] at hfixed
    exact hfixed.2.1
  have hlt : 12 + p.extensionBytes.length + p.payload.bytes.length < 65536 := p.length_lt
  have hlen : (((p.bytes.length : Int) - 12 - p.extensionBytes.length) % 65536).toNat =
      p.payload.bytes.length := by
    rw [length_packet]
    push_cast
    omega
  have hpt : ¬mem 1 &&& 0x7F ≠ 96 := by rw [h1, p.payload_type]; exact fun hne => hne rfl
  rw [onRtp, if_neg hpt]
  simp only [extension_length p h, hlen, h1]

/-! ## What is written -/

/-- Decoding does no harm to a sequence parameter set in a packet of its own: it leaves the bytes alone, and
comes to its end. -/
def Payload.Spared (mem : Mem) (off : Int) : Payload → Prop
  | .single n =>
    n.header &&& 0x1F = 7 → Intact n.bytes ∧ (h264DecodeSps mem off n.bytes.length).isSome
  | _ => True

theorem eq_of_h264DecodeSps (h : h264DecodeSps mem off len = some mem') :
    2 ≤ len ∧ mem' = mem.write off (deEmulationPrevention (mem.bytes off len)).1 := by
  rw [h264DecodeSps] at h
  split at h
  · cases h
  · next hlen =>
    obtain ⟨_, -, rfl⟩ := Option.map_eq_some_iff.mp h
    exact ⟨by omega, rfl⟩

theorem NalUnit.length_ge (n : NalUnit) : 2 ≤ n.bytes.length := by
  have := List.length_pos_iff.mpr n.rest_ne
  rw [NalUnit.bytes, List.length_cons]
  omega

/-- The byte a unit starts with. -/
theorem NalUnit.header_of_memory {n : NalUnit} (h : mem.bytes off n.bytes.length = n.bytes) :
    mem off = n.header := by
  rw [NalUnit.bytes, List.length_cons, Mem.bytes_succ, List.cons.injEq] at h
  exact h.1

/-- A unit that is not decoded, or spared. -/
theorem onSingle_of_spared {n : NalUnit} (h : mem.bytes off n.bytes.length = n.bytes)
    (hspared : (Payload.single n).Spared mem off) :
    onSingle mem off n.bytes.length = some (mem, n.written) := by
  have hheader := n.header_of_memory h
  have hdecoded : (if mem off &&& 0x1F = 7 then h264DecodeSps mem off n.bytes.length
      else some mem) = some mem := by
    split
    · next htype =>
      obtain ⟨hintact, hend⟩ := hspared (hheader ▸ htype)
      obtain ⟨mem', hmem'⟩ := Option.isSome_iff_exists.mp hend
      obtain ⟨hlen, hwrite⟩ := eq_of_h264DecodeSps hmem'
      have hkept : (deEmulationPrevention (mem.bytes off n.bytes.length)).1 =
          mem.bytes off n.bytes.length := by
        rw [h]
        exact (deEmulationPrevention_eq_iff n.length_ge).mpr hintact
      rw [hmem', hwrite, hkept, Mem.write_bytes_self]
    · rfl
  rw [onSingle, hdecoded, Option.map_some, hheader, h]
  rfl

/-- A unit that is not spared: as many bytes are written, but not the right ones. -/
theorem onSingle_of_not_spared {n : NalUnit} {bs : List UInt8}
    (h : mem.bytes off n.bytes.length = n.bytes) (hspared : ¬(Payload.single n).Spared mem off)
    (hsome : onSingle mem off n.bytes.length = some (mem', bs)) :
    bs.length = n.written.length ∧ bs ≠ n.written := by
  have hheader := n.header_of_memory h
  simp only [Payload.Spared, Classical.not_imp, not_and_or] at hspared
  obtain ⟨htype, hspared⟩ := hspared
  rw [onSingle, if_pos (by rw [hheader, htype])] at hsome
  obtain ⟨decoded, hdecoded, hpair⟩ := Option.map_eq_some_iff.mp hsome
  have hintact : ¬Intact n.bytes := by
    rcases hspared with hintact | hend
    · exact hintact
    · exact absurd (Option.isSome_iff_exists.mpr ⟨decoded, hdecoded⟩) hend
  obtain ⟨-, hwrite⟩ := eq_of_h264DecodeSps hdecoded
  rw [h] at hwrite
  have hlen := length_deEmulationPrevention n.length_ge
  have hbytes : decoded.bytes off n.bytes.length = (deEmulationPrevention n.bytes).1 := by
    rw [hwrite, ← hlen, Mem.bytes_write_self]
  have hfirst : decoded off = n.header := by
    have hhead := headD_deEmulationPrevention n.length_ge
    rw [← hbytes, NalUnit.bytes, List.length_cons, Mem.bytes_succ] at hhead
    exact hhead
  rw [Prod.mk.injEq, hfirst, hbytes] at hpair
  rw [← hpair.2, NalUnit.written]
  refine ⟨by rw [List.length_append, List.length_append, hlen], fun heq => hintact ?_⟩
  exact (deEmulationPrevention_eq_iff n.length_ge).mp (List.append_cancel_left heq)

/-- The data of a fragment. -/
theorem fragment_memory {b c : UInt8} {data : List UInt8}
    (h : mem.bytes off (b :: c :: data).length = b :: c :: data) :
    mem off = b ∧ mem (off + 1) = c ∧ mem.bytes (off + 2) data.length = data := by
  rw [List.length_cons, List.length_cons, Mem.bytes_succ, Mem.bytes_succ] at h
  simp only [List.cons.injEq] at h
  rwa [show off + 2 = off + 1 + 1 by omega]

theorem onFragment_start {n : NalUnit} {flags : UInt8} {data : List UInt8}
    (h : mem.bytes off (Payload.start n flags data).bytes.length = (Payload.start n flags data).bytes) :
    onFragment mem off (Payload.start n flags data).bytes.length false =
      some (mem, (Payload.start n flags data).written) := by
  obtain ⟨hind, hfu, hdata⟩ := fragment_memory h
  have hlen : (Payload.start n flags data).bytes.length = data.length + 2 := rfl
  have hstart : fuHeader 0x80 flags n &&& 0x80 ≠ 0 := by
    rw [fuHeader_start]
    decide
  rw [onFragment, hlen, if_neg (by omega), hind, hfu, if_pos ⟨rfl, hstart⟩, header_of_fragment,
    Nat.add_sub_cancel, hdata]
  rfl

theorem onFragment_next {n : NalUnit} {flags : UInt8} {data : List UInt8} (marker : Bool)
    (h : mem.bytes off (Payload.next n flags data).bytes.length = (Payload.next n flags data).bytes) :
    onFragment mem off (Payload.next n flags data).bytes.length marker =
      some (mem, (Payload.next n flags data).written) := by
  obtain ⟨-, hfu, hdata⟩ := fragment_memory h
  have hlen : (Payload.next n flags data).bytes.length = data.length + 2 := rfl
  rw [onFragment, hlen, if_neg (by omega), hfu, fuHeader_next, if_neg (fun hne => hne.2 rfl),
    Nat.add_sub_cancel, hdata]
  rfl

/-- The type of what a packet has. -/
theorem onPayload_single {n : NalUnit} (marker : Bool) (hheader : mem off = n.header) :
    onPayload mem off len marker = onSingle mem off len := by
  simp only [onPayload, hheader, if_pos (And.intro n.type_pos n.type_lt)]

theorem onPayload_fragment {n : NalUnit} (marker : Bool) (hind : mem off = fuIndicator n) :
    onPayload mem off len marker = onFragment mem off len marker := by
  have htype : ¬((0 : UInt8) < 28 ∧ (28 : UInt8) < 24) := by decide
  simp only [onPayload, hind, fuIndicator_type, if_neg htype, if_true]

/-- What the loop does with a packet that is spared: it writes what it should, and leaves the memory
alone. -/
theorem onRtp_of_spared (p : Packet) (h : mem.bytes 0 p.bytes.length = p.bytes)
    (hspared : p.payload.Spared mem (12 + p.extensionBytes.length)) :
    onRtp mem p.bytes.length = some (mem, p.payload.written) := by
  have hpayload := (packet_memory p h).2.2
  rw [onRtp_packet p h]
  cases hp : p.payload with
  | single n =>
    rw [hp] at hpayload hspared
    rw [onPayload_single _ (n.header_of_memory hpayload)]
    exact onSingle_of_spared hpayload hspared
  | start n flags data =>
    rw [hp] at hpayload
    rw [p.start_marker n flags data hp, onPayload_fragment _ (fragment_memory hpayload).1]
    exact onFragment_start hpayload
  | next n flags data =>
    rw [hp] at hpayload
    rw [onPayload_fragment _ (fragment_memory hpayload).1]
    exact onFragment_next _ hpayload

/-- Otherwise it writes as many bytes, but others, or does not come to its end. -/
theorem onRtp_of_not_spared (p : Packet) {bs : List UInt8} (h : mem.bytes 0 p.bytes.length = p.bytes)
    (hspared : ¬p.payload.Spared mem (12 + p.extensionBytes.length))
    (hsome : onRtp mem p.bytes.length = some (mem', bs)) :
    bs.length = p.payload.written.length ∧ bs ≠ p.payload.written := by
  have hpayload := (packet_memory p h).2.2
  rw [onRtp_packet p h] at hsome
  cases hp : p.payload with
  | single n =>
    rw [hp] at hpayload hspared hsome
    rw [onPayload_single _ (n.header_of_memory hpayload)] at hsome
    exact onSingle_of_not_spared hpayload hspared hsome
  | start n flags data =>
    rw [hp] at hspared
    exact absurd trivial hspared
  | next n flags data =>
    rw [hp] at hspared
    exact absurd trivial hspared

/-- A unit by itself is never without bytes. -/
theorem written_ne_of_not_spared {p : Payload} (hspared : ¬p.Spared mem off) : p.written ≠ [] := by
  cases p with
  | single n => exact List.append_ne_nil_of_right_ne_nil _ (List.cons_ne_nil _ _)
  | start n flags data => exact absurd trivial hspared
  | next n flags data => exact absurd trivial hspared

end ProgrammingPath.Rtsp
