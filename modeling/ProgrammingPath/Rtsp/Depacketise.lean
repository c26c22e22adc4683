import ProgrammingPath.Rtsp.Interleaved
import ProgrammingPath.Rtsp.Recorder

/-!
# The NAL units in the file

A sender puts every NAL unit into one packet or into fragments (`Sends`). Is the file then the units behind
their start codes? It is if and only if every sequence parameter set in a packet of its own survives
`h264_decode_sps` (`Intact`, and the function comes to its end), and nothing that ends the loop, an empty
frame or a response longer than its buffer, has a packet with bytes behind it.
-/

namespace ProgrammingPath.Rtsp

open ProgrammingPath.Lib

/-! ## What a sender does -/

/-- The fragments of a unit: a start, and at least one more. Together they have its bytes. -/
inductive Fragments (n : NalUnit) : List Payload → Prop
  | intro {flags : UInt8} {data : List UInt8} {pieces : List (UInt8 × List UInt8)}
    (more : pieces ≠ []) (whole : data ++ pieces.flatMap Prod.snd = n.rest) :
    Fragments n (.start n flags data :: pieces.map fun piece => .next n piece.1 piece.2)

/-- The units go into packets, one after the other. -/
inductive Sends : List NalUnit → List Packet → Prop
  | nil : Sends [] []
  | single {n : NalUnit} {p : Packet} {nals : List NalUnit} {packets : List Packet}
    (alone : p.payload = .single n) (rest : Sends nals packets) : Sends (n :: nals) (p :: packets)
  | fragments {n : NalUnit} {group : List Packet} {nals : List NalUnit} {packets : List Packet}
    (pieces : Fragments n (group.map Packet.payload)) (rest : Sends nals packets) :
    Sends (n :: nals) (group ++ packets)

/-- The packets among what arrives. -/
def Item.packet? : Item → Option Packet
  | .packet p => some p
  | _ => none

/-- What the file should have of packets. -/
def writtenOf (packets : List Packet) : List UInt8 := packets.flatMap fun p => p.payload.written

theorem written_of_fragments {n : NalUnit} {payloads : List Payload} (h : Fragments n payloads) :
    payloads.flatMap Payload.written = n.written := by
  cases h with
  | @intro flags data pieces more whole =>
    have hpieces : (pieces.map fun piece => Payload.next n piece.1 piece.2).flatMap Payload.written =
        pieces.flatMap Prod.snd := by
      rw [List.flatMap_map]
      rfl
    rw [List.flatMap_cons, hpieces, Payload.written, NalUnit.written, NalUnit.bytes, ← whole,
      List.append_assoc, List.cons_append]

/-- The packets have the bytes of the units. -/
theorem writtenOf_sends {nals : List NalUnit} {packets : List Packet} (h : Sends nals packets) :
    writtenOf packets = nals.flatMap NalUnit.written := by
  induction h with
  | nil => rfl
  | single alone rest ih =>
    rw [writtenOf, List.flatMap_cons, alone, List.flatMap_cons, ← ih]
    rfl
  | @fragments n group nals packets pieces rest ih =>
    have hgroup : group.flatMap (fun p => p.payload.written) = n.written := by
      rw [← written_of_fragments pieces, List.flatMap_map]
    rw [writtenOf, List.flatMap_append, hgroup, List.flatMap_cons, ← ih]
    rfl

/-! ## When the file has them -/

variable {mem : Mem} {items rest : List Item}

/-- No packet has bytes for the file. -/
def Silent (items : List Item) : Prop :=
  ∀ p ∈ items.filterMap Item.packet?, p.payload.written = []

/-- Decoding spares every sequence parameter set in a packet of its own, and behind what ends the loop there
is nothing for the file. The memory is the one in front of the items. -/
def Unharmed (mem : Mem) : List Item → Prop
  | [] => True
  | .packet p :: rest =>
    p.payload.Spared (mem.write 0 p.bytes) (12 + p.extensionBytes.length) ∧
      Unharmed (mem.write 0 p.bytes) rest
  | .frame f :: rest =>
    (f.payload = [] → Silent rest) ∧ (f.payload ≠ [] → Unharmed (mem.write 0 f.payload) rest)
  | .reply r _ :: rest =>
    (buffRtspSize < r.bytes.length → Silent rest) ∧
      (r.bytes.length ≤ buffRtspSize → Unharmed mem rest)

theorem silent_iff : [] = writtenOf (items.filterMap Item.packet?) ↔ Silent items := by
  rw [eq_comm, writtenOf, List.flatMap_eq_nil_iff]
  rfl

/-- A packet: as many bytes are written as should be, so that the packets behind it can be looked at by
themselves. -/
theorem record_packet_iff (p : Packet) :
    record mem (.packet p :: rest) = p.payload.written ++ writtenOf (rest.filterMap Item.packet?) ↔
      p.payload.Spared (mem.write 0 p.bytes) (12 + p.extensionBytes.length) ∧
        record (mem.write 0 p.bytes) rest = writtenOf (rest.filterMap Item.packet?) := by
  have hbytes : (mem.write 0 p.bytes).bytes 0 p.bytes.length = p.bytes := Mem.bytes_write_self mem
  by_cases hspared : p.payload.Spared (mem.write 0 p.bytes) (12 + p.extensionBytes.length)
  · simp only [record, onRtp_of_spared p hbytes hspared, hspared, true_and, List.append_cancel_left_eq]
  · refine ⟨fun heq => absurd heq ?_, fun h => absurd h.1 hspared⟩
    cases hrtp : onRtp (mem.write 0 p.bytes) p.bytes.length with
    | none =>
      simp only [record, hrtp]
      exact fun hnil => written_ne_of_not_spared hspared (List.append_eq_nil_iff.mp hnil.symm).1
    | some written =>
      obtain ⟨mem', bytes⟩ := written
      obtain ⟨hlen, hne⟩ := onRtp_of_not_spared p hbytes hspared hrtp
      simp only [record, hrtp]
      exact fun heq => hne (List.append_inj_left heq hlen)

/-- What gets into the file is what should. -/
theorem record_eq_iff (mem : Mem) (items : List Item) :
    record mem items = writtenOf (items.filterMap Item.packet?) ↔ Unharmed mem items := by
  induction items generalizing mem with
  | nil => exact ⟨fun _ => trivial, fun _ => rfl⟩
  | cons item rest ih =>
    cases item with
    | packet p =>
      rw [Unharmed, ← ih, ← record_packet_iff p]
      rfl
    | frame f =>
      rw [Unharmed, ← ih, record,
        show (Item.frame f :: rest).filterMap Item.packet? = rest.filterMap Item.packet? from rfl]
      by_cases hnil : f.payload = []
      · rw [if_pos hnil, silent_iff]
        exact ⟨fun h => ⟨fun _ => h, fun hne => absurd hnil hne⟩, fun h => h.1 hnil⟩
      · rw [if_neg hnil]
        exact ⟨fun h => ⟨fun heq => absurd heq hnil, fun _ => h⟩, fun h => h.2 hnil⟩
    | reply r ok =>
      rw [Unharmed, ← ih, record,
        show (Item.reply r ok :: rest).filterMap Item.packet? = rest.filterMap Item.packet? from rfl]
      by_cases hlong : buffRtspSize < r.bytes.length
      · rw [if_pos hlong, silent_iff]
        exact ⟨fun h => ⟨fun _ => h, fun hle => absurd hlong (Nat.not_lt.mpr hle)⟩,
          fun h => h.1 hlong⟩
      · rw [if_neg hlong]
        exact ⟨fun h => ⟨fun hlt => absurd hlt hlong, fun _ => h⟩, fun h => h.2 (Nat.not_lt.mp hlong)⟩

/-- What arrives, and the loop when it has taken so many turns. -/
def recorded (mem : Mem) (items : List Item) (turns : List Turn) : Recorder :=
  recorderRun (Recorder.init mem (items.flatMap Item.bytes)) turns

/-- The file of `RTSPClient_StreamRecv` on every socket that stays open. A turn for every byte is enough to
be done, and then the file has the units, each behind its start code, if the items are unharmed and only
then. -/
theorem file_eq_iff_unharmed (mem : Mem) {nals : List NalUnit} {items : List Item} {turns : List Turn}
    (hsends : Sends nals (items.filterMap Item.packet?)) (hturns : Turn.closed ∉ turns) :
    ((items.flatMap Item.bytes).length ≤ turns.countP Turn.isData → Done (recorded mem items turns)) ∧
      (Done (recorded mem items turns) →
        ((recorded mem items turns).file = nals.flatMap NalUnit.written ↔ Unharmed mem items)) := by
  refine ⟨fun hlen => done_of_length hlen, fun hdone => ?_⟩
  have hfile : (recorded mem items turns).file = record mem items := file_eq_record hturns hdone
  rw [hfile, ← writtenOf_sends hsends]
  exact record_eq_iff mem items

/-- A unit in a packet of its own, with the marker. -/
def inOnePacket (n : NalUnit) (h : n.bytes.length < 65524) : Packet where
  first := 0x80
  second := 0xE0
  tail := List.replicate 10 0
  extension := none
  payload := .single n
  plain := by decide
  extended := by decide
  payload_type := by decide
  start_marker _ _ _ h := by cases h
  length_tail := List.length_replicate
  length_lt := by
    show 12 + 0 + n.bytes.length < 65536
    omega

/-- The bytes arrive one by one. -/
def byteTurns (n : Nat) : List Turn := List.replicate n (.data 0)

theorem closed_not_mem_byteTurns (n : Nat) : Turn.closed ∉ byteTurns n := by
  intro h
  cases List.eq_of_mem_replicate h

/-- An IDR unit of three bytes, and a picture parameter set. -/
def shortIdr : NalUnit := ⟨0x65, [0x88, 0x84], by decide, by decide, by decide⟩

def shortPps : NalUnit := ⟨0x68, [0xCE], by decide, by decide, by decide⟩

/-- The start of the IDR unit, behind an extension header of one word. -/
def idrStart : Packet where
  first := 0x90
  second := 0x60
  tail := List.replicate 10 0
  extension := some ⟨0xAB, 0xCD, 1, [1, 2, 3, 4], rfl, by decide⟩
  payload := .start shortIdr 0 [0x88]
  plain := by decide
  extended := by decide
  payload_type := by decide
  start_marker _ _ _ _ := by decide
  length_tail := List.length_replicate
  length_lt := by decide

/-- The last fragment, with the end bit and the marker. -/
def idrEnd : Packet where
  first := 0x80
  second := 0xE0
  tail := List.replicate 10 0
  extension := none
  payload := .next shortIdr 0x40 [0x84]
  plain := by decide
  extended := by decide
  payload_type := by decide
  start_marker _ _ _ h := by cases h
  length_tail := List.length_replicate
  length_lt := by decide

theorem okResponse_code : okResponse.toReply.code = 200 := rfl

def soundFrame : OtherFrame where
  channel := 2
  payload := shortFrame.payload
  channel_ne h := Nat.succ_ne_zero 1 (congrArg UInt8.toNat h)
  length_lt := shortFrame.length_lt

def ppsPacket : Packet := inOnePacket shortPps (by decide)

/-- Sound and a response between the packets. -/
def mixedItems : List Item :=
  [.frame soundFrame, .packet idrStart, .reply okResponse.toReply okResponse_code, .packet idrEnd,
    .packet ppsPacket]

theorem file_eq_iff_unharmed_mixed :
    (recorded Mem.zero mixedItems (byteTurns 200)).file =
      [shortIdr, shortPps].flatMap NalUnit.written := by
  have hidr : Fragments shortIdr ([idrStart, idrEnd].map Packet.payload) :=
    @Fragments.intro shortIdr 0 [0x88] [(0x40, [0x84])] (List.cons_ne_nil _ _) rfl
  have hsends : Sends [shortIdr, shortPps] (mixedItems.filterMap Item.packet?) :=
    .fragments hidr (.single rfl .nil)
  obtain ⟨hdone, hiff⟩ := file_eq_iff_unharmed Mem.zero hsends (closed_not_mem_byteTurns 200)
  apply (hiff (hdone (by decide +kernel))).mpr
  refine ⟨fun hnil => absurd hnil (List.cons_ne_nil _ _), fun _ => ⟨trivial, fun hlong => ?_,
    fun _ => ⟨trivial, fun htype => ?_, trivial⟩⟩⟩
  · exact absurd hlong (by decide)
  · exact absurd htype (by decide)

/-- A sequence parameter set for 1280x720, with two emulation prevention bytes. -/
def hdSps : NalUnit where
  header := 0x67
  rest := [0x64, 0x00, 0x1F, 0xAC, 0xD9, 0x40, 0x50, 0x05, 0xBB, 0x01, 0x10, 0x00, 0x00, 0x03, 0x00,
    0x10, 0x00, 0x00, 0x03, 0x03, 0x20, 0xF1, 0x83, 0x19, 0x60]
  type_pos := by decide
  type_lt := by decide
  rest_ne := by decide

def hdPacket : Packet := inOnePacket hdSps (by decide)

/-- In the file these two bytes are missing, and the last one is there three times. -/
theorem hdSps_not_unharmed :
    Sends [hdSps] [hdPacket] ∧ Turn.closed ∉ byteTurns 42 ∧
      Done (recorded Mem.zero [.packet hdPacket] (byteTurns 42)) ∧
      (recorded Mem.zero [.packet hdPacket] (byteTurns 42)).file =
        [0, 0, 0, 1, 0x67, 0x64, 0x00, 0x1F, 0xAC, 0xD9, 0x40, 0x50, 0x05, 0xBB, 0x01, 0x10, 0x00,
          0x00, 0x00, 0x10, 0x00, 0x00, 0x03, 0x20, 0xF1, 0x83, 0x19, 0x60, 0x60, 0x60] ∧
      (recorded Mem.zero [.packet hdPacket] (byteTurns 42)).file ≠
        [hdSps].flatMap NalUnit.written := by
  have hfile : (recorded Mem.zero [.packet hdPacket] (byteTurns 42)).file =
      [0, 0, 0, 1, 0x67, 0x64, 0x00, 0x1F, 0xAC, 0xD9, 0x40, 0x50, 0x05, 0xBB, 0x01, 0x10, 0x00,
        0x00, 0x00, 0x10, 0x00, 0x00, 0x03, 0x20, 0xF1, 0x83, 0x19, 0x60, 0x60, 0x60] := by
    decide +kernel
  refine ⟨.single rfl .nil, closed_not_mem_byteTurns 42, done_of_length (by decide +kernel), hfile, ?_⟩
  rw [hfile]
  decide

end ProgrammingPath.Rtsp
