import ProgrammingPath.Rtsp.Rtp
import ProgrammingPath.Rtsp.Wire

/-!
# The file of `RTSPClient_StreamRecv`

The loop reads packets of H.264 on channel 0, frames on other channels and responses from one socket, in
pieces of any length, and writes to a file what `onRtp` makes of the packets. `record` says what gets into
the file in terms of the whole frames and responses, one after the other. `Follows` connects the two: it
holds at the start, every turn of the loop keeps it, and at the end it says that the file is `record`'s.
-/

namespace ProgrammingPath.Rtsp

open ProgrammingPath.Lib

/-! ## The loop -/

/-- The reader, what was written to the file, and whether something that is done with a packet does not
come to its end. -/
structure Recorder where
  reader : Reader
  file : List UInt8
  fault : Bool

/-- The loop at its start. -/
def Recorder.init (buffRtcpRtp : Mem) (outstanding : List UInt8) : Recorder :=
  ⟨Reader.init buffRtcpRtp outstanding, [], false⟩

/-- A frame is complete. -/
def onComplete (s : Recorder) (call : Call) : Recorder :=
  if call.channel = 0 then
    match onRtp s.reader.buffRtcpRtp call.len with
    | some (mem, bytes) =>
      { s with reader := { s.reader with buffRtcpRtp := mem }, file := s.file ++ bytes }
    | none => { s with fault := true }
  else s

/-- One turn of the loop. -/
def recorderStep (s : Recorder) (turn : Turn) : Recorder :=
  if s.fault then s
  else
    let reader := readerStep streamRecv s.reader turn
    match reader.calls.drop s.reader.calls.length with
    | [] => { s with reader := reader }
    | call :: _ => onComplete { s with reader := reader } call

/-- The loop after so many turns. -/
def recorderRun (s : Recorder) (turns : List Turn) : Recorder := turns.foldl recorderStep s

/-! ## What arrives -/

/-- A frame on another channel than the video's. -/
structure OtherFrame where
  channel : UInt8
  payload : List UInt8
  channel_ne : channel ≠ 0
  length_lt : payload.length < 65536

/-- A packet on channel 0, another frame, or a response 200. -/
inductive Item
  | packet (p : Packet)
  | frame (f : OtherFrame)
  | reply (r : Reply) (ok : r.code = 200)

def Item.bytes : Item → List UInt8
  | .packet p => interleaved 0 p.bytes
  | .frame f => interleaved f.channel f.payload
  | .reply r _ => r.bytes

/-- What gets into the file. An empty frame and a response that is too long end the loop, and so does what
is done with a packet when it does not come to its end. -/
def record (mem : Mem) : List Item → List UInt8
  | [] => []
  | .packet p :: rest =>
    match onRtp (mem.write 0 p.bytes) p.bytes.length with
    | some (mem, bytes) => bytes ++ record mem rest
    | none => []
  | .frame f :: rest => if f.payload = [] then [] else record (mem.write 0 f.payload) rest
  | .reply r _ :: rest => if buffRtspSize < r.bytes.length then [] else record mem rest

theorem Item.length_bytes (item : Item) : 4 ≤ item.bytes.length := by
  cases item with
  | packet p =>
    rw [Item.bytes, length_interleaved]
    omega
  | frame f =>
    rw [Item.bytes, length_interleaved]
    omega
  | reply r ok =>
    have h1 := r.length_version_ge
    have h2 := r.length_head
    rw [Item.bytes, r.length_bytes]
    omega

theorem length_packet_pos (p : Packet) : 0 < p.bytes.length := by
  rw [length_packet]
  omega

/-! ## Where the reader is -/

variable {channel : UInt8} {payload after : List UInt8} {mem : Mem} {s : Reader} {b : UInt8}
  {more : List UInt8} {rest : List Item} {n : Nat}

/-- A part of a frame has arrived. -/
structure Arriving (channel : UInt8) (payload : List UInt8) (mem : Mem) (after : List UInt8)
    (s : Reader) : Prop where
  flag : s.rflag = .frame
  packetHead : s.packetHead = []
  channel_eq : s.rtspifChannel = channel
  len : s.rtspifLen = payload.length
  missing : payload ≠ [] → s.wpos < payload.length
  memory : s.buffRtcpRtp = mem.write 0 (payload.take s.wpos)
  stream : s.outstanding = payload.drop s.wpos ++ after

/-- The reader is between two frames, or in one, or in a response. The memory is the one before the first
item that has not arrived. -/
inductive Place : Mem → List Item → Reader → Prop
  | head {mem : Mem} {rest : List Item} {s : Reader} (flag : s.rflag = .head)
    (short : s.packetHead.length < 4) (memory : s.buffRtcpRtp = mem)
    (stream : s.packetHead ++ s.outstanding = rest.flatMap Item.bytes) : Place mem rest s
  | packet {mem : Mem} {p : Packet} {rest : List Item} {s : Reader}
    (h : Arriving 0 p.bytes mem (rest.flatMap Item.bytes) s) : Place mem (.packet p :: rest) s
  | frame {mem : Mem} {f : OtherFrame} {rest : List Item} {s : Reader}
    (h : Arriving f.channel f.payload mem (rest.flatMap Item.bytes) s) :
    Place mem (.frame f :: rest) s
  | reply {mem : Mem} {r : Reply} {ok : r.code = 200} {rest : List Item} {s : Reader}
    (h : InReply r (rest.flatMap Item.bytes) s) (missing : s.buffRtsp.length < r.bytes.length)
    (packetHead : s.packetHead = []) (memory : s.buffRtcpRtp = mem) : Place mem (.reply r ok :: rest) s

/-- The head of a frame. -/
theorem arriving_head (hlt : payload.length < 65536) (hlen : s.packetHead.length = 3)
    (hout : s.outstanding = b :: more)
    (hstream : s.packetHead ++ s.outstanding = interleaved channel payload ++ after) :
    Arriving channel payload s.buffRtcpRtp after (onHead streamRecv { s with outstanding := more } b) ∧
      (onHead streamRecv { s with outstanding := more } b).result = s.result := by
  have hcat : s.packetHead ++ s.outstanding =
      [36, channel, UInt8.ofNat (payload.length / 256), UInt8.ofNat (payload.length % 256)] ++
        (payload ++ after) := hstream
  obtain ⟨hhead, hmore⟩ := head_split rfl hlen hout hcat
  rw [onHead_of_dollar (show ({ s with outstanding := more } : Reader).packetHead ++ [b] = _ from hhead),
    ntohs_ofNat hlt]
  refine ⟨⟨rfl, rfl, rfl, rfl, fun hne => List.length_pos_iff.mpr hne, ?_, hmore⟩, rfl⟩
  exact (Mem.write_bytes_self s.buffRtcpRtp (n := 0)).symm

/-- A byte between two frames. -/
theorem place_head (hflag : s.rflag = .head) (hshort : s.packetHead.length < 4)
    (hstream : s.packetHead ++ s.outstanding = rest.flatMap Item.bytes)
    (hout : s.outstanding = b :: more) :
    Place s.buffRtcpRtp rest (onHead streamRecv { s with outstanding := more } b) ∧
      (onHead streamRecv { s with outstanding := more } b).result = s.result := by
  by_cases hlt : s.packetHead.length < 3
  · rw [onHead_of_lt (show ({ s with outstanding := more } : Reader).packetHead.length < 3 from hlt)]
    refine ⟨.head hflag ?_ rfl ?_, rfl⟩
    · show (s.packetHead ++ [b]).length < 4
      rw [List.length_append, List.length_singleton]
      omega
    · show s.packetHead ++ [b] ++ more = _
      rw [← hstream, hout, List.append_assoc, List.singleton_append]
  · have hlen : s.packetHead.length = 3 := by omega
    cases rest with
    | nil =>
      have hnil := congrArg List.length hstream
      rw [List.length_append, hlen, List.flatMap_nil, List.length_nil] at hnil
      omega
    | cons item rest =>
      rw [List.flatMap_cons] at hstream
      cases item with
      | packet p =>
        have hp : p.bytes.length < 65536 := by
          rw [length_packet]
          exact p.length_lt
        obtain ⟨harriving, hres⟩ := arriving_head hp hlen hout hstream
        exact ⟨.packet harriving, hres⟩
      | frame f =>
        obtain ⟨harriving, hres⟩ := arriving_head f.length_lt hlen hout hstream
        exact ⟨.frame harriving, hres⟩
      | reply r ok =>
        obtain ⟨tail, htail, hne⟩ := r.bytes_eq_magic
        rw [Item.bytes, htail, List.append_assoc] at hstream
        obtain ⟨hhead, hmore⟩ := head_split rfl hlen hout hstream
        rw [onHead_of_magic
          (show ({ s with outstanding := more } : Reader).packetHead ++ [b] = _ from hhead)]
        refine ⟨.reply (inReply_magic rfl rfl rfl rfl ?_) ?_ rfl rfl, rfl⟩
        · show rtspMagic ++ more = r.bytes ++ rest.flatMap Item.bytes
          rw [hmore, htail, List.append_assoc]
        · show rtspMagic.length < r.bytes.length
          have := List.length_pos_iff.mpr hne
          rw [htail, List.length_append]
          omega

/-- `onFrame` for this reader. -/
theorem onFrame_streamRecv (bs : List UInt8) :
    onFrame streamRecv s bs =
      if s.wpos + bs.length = s.rtspifLen then
        { s with
          buffRtcpRtp := s.buffRtcpRtp.write s.wpos bs
          calls := s.calls ++ [⟨s.rtspifChannel, s.rtspifLen,
            (s.buffRtcpRtp.write s.wpos bs).bytes 0 s.rtspifLen, s.wpos + bs.length⟩]
          wpos := 0
          rflag := .head }
      else
        { s with buffRtcpRtp := s.buffRtcpRtp.write s.wpos bs, wpos := s.wpos + bs.length } := by
  simp only [onFrame, streamRecv, beq_iff_eq]

/-- The frame is complete: it is handed over, and the reader is behind it. -/
structure Arrived (channel : UInt8) (payload : List UInt8) (mem : Mem) (after : List UInt8)
    (calls : List Call) (s : Reader) : Prop where
  calls_eq : ∃ call : Call, s.calls = calls ++ [call] ∧ call.channel = channel ∧
    call.len = payload.length
  flag : s.rflag = .head
  packetHead : s.packetHead = []
  memory : s.buffRtcpRtp = mem.write 0 payload
  stream : s.outstanding = after

/-- The next head has not begun. -/
theorem Arrived.head {calls : List Call} (h : Arrived channel payload mem after calls s) :
    s.packetHead.length < 4 ∧ s.packetHead ++ s.outstanding = after := by
  rw [h.packetHead, h.stream]
  exact ⟨Nat.zero_lt_succ 3, rfl⟩

/-- Bytes of a frame. -/
theorem arriving_step (h : Arriving channel payload mem after s) (hres : s.result = none)
    (hne : payload ≠ []) (n : Nat) :
    (readerStep streamRecv s (.data n)).result = none ∧
      (Arriving channel payload mem after (readerStep streamRecv s (.data n)) ∧
          (readerStep streamRecv s (.data n)).calls = s.calls ∨
        Arrived channel payload mem after s.calls (readerStep streamRecv s (.data n))) := by
  have hmissing := h.missing hne
  have hasked : s.outstanding.take (s.rtspifLen - s.wpos) = payload.drop s.wpos := by
    rw [h.stream, h.len, List.take_left' List.length_drop]
  have hout : s.outstanding ≠ [] := by
    intro hnil
    have hlen := congrArg List.length hasked
    rw [hnil, List.take_nil, List.length_nil, List.length_drop] at hlen
    omega
  rw [readerStep_frame n hres hout h.flag, if_neg (by rw [h.len]; omega), hasked, onFrame_streamRecv]
  generalize hbs : (payload.drop s.wpos).take (n + 1) = bs
  have hbslen : bs.length = min (n + 1) (payload.length - s.wpos) := by
    rw [← hbs, List.length_take, List.length_drop]
  have hprefix : bs = (payload.drop s.wpos).take bs.length :=
    List.prefix_iff_eq_take.mp (hbs ▸ List.take_prefix _ _)
  have hmemory : s.buffRtcpRtp.write s.wpos bs = mem.write 0 (payload.take (s.wpos + bs.length)) := by
    have hlen : (payload.take s.wpos).length = s.wpos := by
      rw [List.length_take]
      omega
    rw [h.memory, Mem.write_write _ _ (by rw [hlen, Int.zero_add]), List.take_add, ← hprefix]
  have hstream : s.outstanding.drop bs.length = payload.drop (s.wpos + bs.length) ++ after := by
    rw [h.stream, List.drop_append_of_le_length (by rw [List.length_drop]; omega), List.drop_drop]
  by_cases hall : s.wpos + bs.length = payload.length
  · rw [hall] at hmemory hstream
    rw [List.take_length] at hmemory
    rw [List.drop_length, List.nil_append] at hstream
    rw [if_pos (show s.wpos + bs.length = s.rtspifLen by rw [hall, h.len])]
    exact ⟨hres, Or.inr
      ⟨⟨_, rfl, h.channel_eq, h.len⟩, rfl, h.packetHead, hmemory, hstream⟩⟩
  · rw [if_neg (show ¬s.wpos + bs.length = s.rtspifLen by rw [h.len]; exact hall)]
    refine ⟨hres, Or.inl ⟨⟨h.flag, h.packetHead, h.channel_eq, h.len, fun _ => ?_, hmemory, hstream⟩,
      rfl⟩⟩
    show s.wpos + bs.length < payload.length
    omega

/-- The `recv` of an empty frame is taken for the end of the connection. -/
theorem arriving_step_nil (h : Arriving channel [] mem after s) (hres : s.result = none)
    (hout : s.outstanding ≠ []) (n : Nat) :
    readerStep streamRecv s (.data n) = { s with result := some (-1) } := by
  rw [readerStep_frame n hres hout h.flag, h.len, List.length_nil, Nat.zero_sub, if_pos rfl]

/-- What `_http_recv` leaves alone. -/
theorem httpRecv_frame (b : UInt8) :
    (httpRecv s b).packetHead = s.packetHead ∧ (httpRecv s b).buffRtcpRtp = s.buffRtcpRtp ∧
      (httpRecv s b).result = s.result := by
  simp only [httpRecv]
  split <;> exact ⟨rfl, rfl, rfl⟩

/-! ## One turn -/

variable {goal : List UInt8} {t : Recorder} {turn : Turn}

/-- What is in the file and what `record` says about the rest make up the whole; and the file is whole when
the loop has ended. -/
structure Follows (goal : List UInt8) (t : Recorder) : Prop where
  running : t.fault = false → t.reader.result = none →
    ∃ mem rest, Place mem rest t.reader ∧ t.file ++ record mem rest = goal
  stopped : t.fault = true ∨ t.reader.result ≠ none → t.file = goal

theorem follows_init (mem : Mem) (items : List Item) :
    Follows (record mem items) (Recorder.init mem (items.flatMap Item.bytes)) := by
  refine ⟨fun _ _ => ⟨mem, items, .head rfl (Nat.zero_lt_succ 3) rfl rfl, rfl⟩, fun h => ?_⟩
  rcases h with h | h
  · cases h
  · exact absurd rfl h

/-- The loop goes on. -/
theorem follows_of_place (hfault : t.fault = false) (hres : t.reader.result = none)
    (hplace : Place mem rest t.reader) (hgoal : t.file ++ record mem rest = goal) : Follows goal t := by
  refine ⟨fun _ _ => ⟨mem, rest, hplace, hgoal⟩, fun h => ?_⟩
  rcases h with h | h
  · cases hfault.symm.trans h
  · exact absurd hres h

/-- The loop has ended. -/
theorem follows_of_stopped (hstop : t.fault = true ∨ t.reader.result ≠ none) (hgoal : t.file = goal) :
    Follows goal t := by
  refine ⟨fun hfault hres => ?_, fun _ => hgoal⟩
  rcases hstop with h | h
  · cases hfault.symm.trans h
  · exact absurd hres h

/-- A turn that hands nothing over. -/
theorem recorderStep_of_calls (hfault : t.fault = false)
    (hcalls : (readerStep streamRecv t.reader turn).calls = t.reader.calls) :
    recorderStep t turn = { t with reader := readerStep streamRecv t.reader turn } := by
  simp only [recorderStep, hfault, hcalls, List.drop_length, Bool.false_eq_true, if_false]

/-- A turn that hands a frame over. -/
theorem recorderStep_of_call {call : Call} (hfault : t.fault = false)
    (hcalls : (readerStep streamRecv t.reader turn).calls = t.reader.calls ++ [call]) :
    recorderStep t turn = onComplete { t with reader := readerStep streamRecv t.reader turn } call := by
  simp only [recorderStep, hfault, hcalls, List.drop_left' rfl, Bool.false_eq_true, if_false]

/-- What is done with a packet comes to its end. -/
theorem onComplete_some {call : Call} {mem' : Mem} {bytes : List UInt8} (hchannel : call.channel = 0)
    (hrtp : onRtp t.reader.buffRtcpRtp call.len = some (mem', bytes)) :
    onComplete t call =
      { t with reader := { t.reader with buffRtcpRtp := mem' }, file := t.file ++ bytes } := by
  simp only [onComplete, hchannel, hrtp, if_true]

theorem onComplete_none {call : Call} (hchannel : call.channel = 0)
    (hrtp : onRtp t.reader.buffRtcpRtp call.len = none) :
    onComplete t call = { t with fault := true } := by
  simp only [onComplete, hchannel, hrtp, if_true]

theorem follows_head (hfault : t.fault = false) (hres : t.reader.result = none)
    (hflag : t.reader.rflag = .head) (hshort : t.reader.packetHead.length < 4)
    (hstream : t.reader.packetHead ++ t.reader.outstanding = rest.flatMap Item.bytes)
    (hout : t.reader.outstanding = b :: more)
    (hgoal : t.file ++ record t.reader.buffRtcpRtp rest = goal) (n : Nat) :
    Follows goal (recorderStep t (.data n)) := by
  have hstep : readerStep streamRecv t.reader (.data n) =
      onHead streamRecv { t.reader with outstanding := more } b := readerStep_head n hres hout hflag
  obtain ⟨hplace, hnone⟩ := place_head hflag hshort hstream hout
  rw [recorderStep_of_calls hfault (by rw [hstep, calls_onHead streamRecv_plain])]
  refine follows_of_place hfault ?_ ?_ hgoal
  · show (readerStep streamRecv t.reader (.data n)).result = none
    rw [hstep, hnone, hres]
  · show Place t.reader.buffRtcpRtp rest (readerStep streamRecv t.reader (.data n))
    rw [hstep]
    exact hplace

theorem follows_packet {p : Packet} (hfault : t.fault = false) (hres : t.reader.result = none)
    (h : Arriving 0 p.bytes mem (rest.flatMap Item.bytes) t.reader)
    (hgoal : t.file ++ record mem (.packet p :: rest) = goal) (n : Nat) :
    Follows goal (recorderStep t (.data n)) := by
  obtain ⟨hnone, hnext | hdone⟩ :=
    arriving_step h hres (List.length_pos_iff.mp (length_packet_pos p)) n
  · rw [recorderStep_of_calls hfault hnext.2]
    exact follows_of_place hfault hnone (.packet hnext.1) hgoal
  · obtain ⟨call, hcall, hchannel, hlen⟩ := hdone.calls_eq
    rw [recorderStep_of_call hfault hcall]
    cases hrtp : onRtp (mem.write 0 p.bytes) p.bytes.length with
    | none =>
      rw [onComplete_none hchannel (by rw [hlen, ← hrtp]; exact congrArg (onRtp · _) hdone.memory)]
      simp only [record, hrtp, List.append_nil] at hgoal
      exact follows_of_stopped (Or.inl rfl) hgoal
    | some written =>
      obtain ⟨mem', bytes⟩ := written
      rw [onComplete_some hchannel (by rw [hlen, ← hrtp]; exact congrArg (onRtp · _) hdone.memory)]
      simp only [record, hrtp, ← List.append_assoc] at hgoal
      exact follows_of_place hfault hnone (.head hdone.flag hdone.head.1 rfl hdone.head.2) hgoal

theorem follows_frame {f : OtherFrame} (hfault : t.fault = false) (hres : t.reader.result = none)
    (h : Arriving f.channel f.payload mem (rest.flatMap Item.bytes) t.reader)
    (hout : t.reader.outstanding ≠ [])
    (hgoal : t.file ++ record mem (.frame f :: rest) = goal) (n : Nat) :
    Follows goal (recorderStep t (.data n)) := by
  by_cases hne : f.payload = []
  · rw [hne] at h
    have hstep := arriving_step_nil h hres hout n
    rw [recorderStep_of_calls hfault (by rw [hstep]), hstep]
    rw [record, if_pos hne, List.append_nil] at hgoal
    exact follows_of_stopped (Or.inr (Option.some_ne_none _)) hgoal
  · rw [record, if_neg hne] at hgoal
    obtain ⟨hnone, hnext | hdone⟩ := arriving_step h hres hne n
    · rw [recorderStep_of_calls hfault hnext.2]
      refine follows_of_place hfault hnone (.frame hnext.1) ?_
      rw [record, if_neg hne]
      exact hgoal
    · obtain ⟨call, hcall, hchannel, -⟩ := hdone.calls_eq
      rw [recorderStep_of_call hfault hcall, onComplete, if_neg (hchannel ▸ f.channel_ne)]
      exact follows_of_place hfault hnone
        (.head hdone.flag hdone.head.1 hdone.memory hdone.head.2) hgoal

theorem follows_reply {r : Reply} {ok : r.code = 200} (hfault : t.fault = false)
    (hres : t.reader.result = none) (h : InReply r (rest.flatMap Item.bytes) t.reader)
    (hmissing : t.reader.buffRtsp.length < r.bytes.length) (hhead : t.reader.packetHead = [])
    (hout : t.reader.outstanding = b :: more)
    (hgoal : t.file ++ record t.reader.buffRtcpRtp (.reply r ok :: rest) = goal) (n : Nat) :
    Follows goal (recorderStep t (.data n)) := by
  have hstep : readerStep streamRecv t.reader (.data n) =
      onText streamRecv { t.reader with outstanding := more } b := readerStep_text n hres hout h.flag
  have hcalls : (readerStep streamRecv t.reader (.data n)).calls = t.reader.calls := by
    rw [hstep, calls_onText streamRecv_plain]
  obtain ⟨hheadNext, hmemory, hresNext⟩ := httpRecv_frame (s := { t.reader with outstanding := more }) b
  have hnext := inReply_httpRecv h hout
  have hlen : (httpRecv { t.reader with outstanding := more } b).buffRtsp.length =
      t.reader.buffRtsp.length + 1 := by
    rw [buffRtsp_httpRecv]
    exact List.length_append
  rw [recorderStep_of_calls hfault hcalls, hstep, inReply_step h hout]
  split
  · next hlong =>
    rw [record, if_pos (by omega), List.append_nil] at hgoal
    exact follows_of_stopped (Or.inr (Option.some_ne_none _)) hgoal
  · next hfits =>
    split
    · next hlast =>
      -- a response 200 is over, and the reader is behind it
      rw [record, if_neg (by omega)] at hgoal
      have hstream := hnext.stream
      have hbytes := List.append_inj hstream (by rw [hlen, hlast])
      rw [ok]
      refine follows_of_place hfault (hresNext.trans hres) (.head rfl ?_ hmemory ?_) hgoal
      · show (httpRecv { t.reader with outstanding := more } b).packetHead.length < 4
        rw [hheadNext]
        show t.reader.packetHead.length < 4
        rw [hhead]
        exact Nat.zero_lt_succ 3
      · show (httpRecv { t.reader with outstanding := more } b).packetHead ++
          (httpRecv { t.reader with outstanding := more } b).outstanding = _
        rw [hheadNext, hbytes.2]
        show t.reader.packetHead ++ _ = _
        rw [hhead, List.nil_append]
    · next hlast =>
      refine follows_of_place hfault (hresNext.trans hres) (.reply hnext ?_ ?_ hmemory) hgoal
      · show (httpRecv { t.reader with outstanding := more } b).buffRtsp.length < r.bytes.length
        omega
      · exact hheadNext.trans hhead

/-- A turn of the loop, as long as the connection is open. -/
theorem follows_step (h : Follows goal t) (hturn : turn ≠ .closed) :
    Follows goal (recorderStep t turn) := by
  by_cases hfault : t.fault = true
  · rw [recorderStep, if_pos hfault]
    exact h
  · rw [Bool.not_eq_true] at hfault
    by_cases hres : t.reader.result = none
    · have hsame (hkept : readerStep streamRecv t.reader turn = t.reader) :
          Follows goal (recorderStep t turn) := by
        rw [recorderStep_of_calls hfault (by rw [hkept]), hkept]
        exact h
      cases turn with
      | idle => exact hsame readerStep_idle
      | closed => exact absurd rfl hturn
      | data n =>
        cases hout : t.reader.outstanding with
        | nil => exact hsame (readerStep_nil n hout)
        | cons b more =>
          obtain ⟨mem, rest, hplace, hgoal⟩ := h.running hfault hres
          cases hplace with
          | head hflag hshort hmemory hstream =>
            exact follows_head hfault hres hflag hshort hstream hout (hmemory ▸ hgoal) n
          | packet harriving => exact follows_packet hfault hres harriving hgoal n
          | frame harriving =>
            exact follows_frame hfault hres harriving (by rw [hout]; exact List.cons_ne_nil _ _) hgoal n
          | reply hreply hmissing hhead hmemory =>
            exact follows_reply hfault hres hreply hmissing hhead hout (hmemory ▸ hgoal) n
    · rw [recorderStep_of_calls hfault (by rw [readerStep_of_result hres]), readerStep_of_result hres]
      exact h

theorem follows_run {turns : List Turn} (h : Follows goal t) (hturns : Turn.closed ∉ turns) :
    Follows goal (recorderRun t turns) := by
  induction turns generalizing t with
  | nil => exact h
  | cons turn turns ih =>
    rw [List.mem_cons, not_or] at hturns
    exact ih (follows_step h (Ne.symm hturns.1)) hturns.2

/-! ## The end of the loop -/

/-- There is no more to do for the loop. -/
def Done (t : Recorder) : Prop :=
  t.fault = true ∨ t.reader.result ≠ none ∨ t.reader.outstanding = []

/-- When all has been read, nothing is missing in the file. -/
theorem file_of_done (h : Follows goal t) (hdone : Done t) : t.file = goal := by
  by_cases hfault : t.fault = true
  · exact h.stopped (Or.inl hfault)
  · by_cases hres : t.reader.result = none
    · have hout : t.reader.outstanding = [] := by
        rcases hdone with hd | hd | hd
        · exact absurd hd hfault
        · exact absurd hres hd
        · exact hd
      obtain ⟨mem, rest, hplace, hgoal⟩ := h.running (Bool.not_eq_true _ ▸ hfault) hres
      suffices hrest : record mem rest = [] by rwa [hrest, List.append_nil] at hgoal
      cases hplace with
      | head hflag hshort hmemory hstream =>
        cases rest with
        | nil => rfl
        | cons item rest =>
          have hlen := congrArg List.length hstream
          have hitem := item.length_bytes
          rw [hout, List.append_nil, List.flatMap_cons, List.length_append] at hlen
          omega
      | @packet p _ _ harriving =>
        have hmissing := harriving.missing (List.length_pos_iff.mp (length_packet_pos p))
        have hlen := congrArg List.length harriving.stream
        rw [hout, List.length_nil, List.length_append, List.length_drop] at hlen
        omega
      | @frame f _ _ harriving =>
        by_cases hne : f.payload = []
        · rw [record, if_pos hne]
        · have hmissing := harriving.missing hne
          have hlen := congrArg List.length harriving.stream
          rw [hout, List.length_nil, List.length_append, List.length_drop] at hlen
          omega
      | reply hreply hmissing hhead hmemory =>
        have hlen := congrArg List.length hreply.stream
        rw [hout, List.append_nil, List.length_append] at hlen
        omega
    · exact h.stopped (Or.inr hres)

/-- The file of the loop is what `record` says, however the bytes arrive. -/
theorem file_eq_record {items : List Item} {turns : List Turn} (hturns : Turn.closed ∉ turns)
    (hdone : Done (recorderRun (Recorder.init mem (items.flatMap Item.bytes)) turns)) :
    (recorderRun (Recorder.init mem (items.flatMap Item.bytes)) turns).file = record mem items :=
  file_of_done (follows_run (follows_init mem items) hturns) hdone

/-- A turn with bytes. -/
def Turn.isData : Turn → Bool
  | .data _ => true
  | _ => false

theorem outstanding_onHead (b : UInt8) : (onHead streamRecv s b).outstanding = s.outstanding := by
  simp only [onHead, streamRecv]
  split
  · split
    · rfl
    · split
      · split <;> rfl
      · rfl
  · rfl

theorem outstanding_onText (b : UInt8) : (onText streamRecv s b).outstanding = s.outstanding := by
  rw [onText]
  split
  · rfl
  · split
    · simp only [streamRecv]
      split <;> exact outstanding_httpRecv b
    · exact outstanding_httpRecv b

/-- A turn with bytes takes some, if the reader goes on. -/
theorem outstanding_lt (hres : s.result = none) (hout : s.outstanding ≠ []) (n : Nat) :
    (readerStep streamRecv s (.data n)).result ≠ none ∨
      (readerStep streamRecv s (.data n)).outstanding.length < s.outstanding.length := by
  obtain ⟨b, more, hcons⟩ := List.exists_cons_of_ne_nil hout
  cases hflag : s.rflag with
  | head =>
    right
    rw [readerStep_head n hres hcons hflag, outstanding_onHead, hcons]
    exact Nat.lt_succ_self _
  | text =>
    right
    rw [readerStep_text n hres hcons hflag, outstanding_onText, hcons]
    exact Nat.lt_succ_self _
  | frame =>
    rw [readerStep_frame n hres hout hflag]
    split
    · exact Or.inl (Option.some_ne_none _)
    · right
      have hpos := List.length_pos_iff.mpr hout
      rw [onFrame_streamRecv]
      split <;>
      · show (s.outstanding.drop _).length < _
        rw [List.length_drop, List.length_take, List.length_take]
        omega

theorem reader_recorderStep (hfault : t.fault = false) (turn : Turn) :
    (recorderStep t turn).reader.outstanding = (readerStep streamRecv t.reader turn).outstanding ∧
      (recorderStep t turn).reader.result = (readerStep streamRecv t.reader turn).result := by
  simp only [recorderStep, hfault, Bool.false_eq_true, if_false]
  split
  · exact ⟨rfl, rfl⟩
  · rw [onComplete]
    split
    · split <;> exact ⟨rfl, rfl⟩
    · exact ⟨rfl, rfl⟩

/-- When there is no more to do it stays so. -/
theorem done_step (h : Done t) (turn : Turn) : Done (recorderStep t turn) := by
  by_cases hfault : t.fault = true
  · rw [recorderStep, if_pos hfault]
    exact h
  · rw [Bool.not_eq_true] at hfault
    obtain ⟨hout, hres⟩ := reader_recorderStep hfault turn
    rcases h with h | h | h
    · cases hfault.symm.trans h
    · rw [Done, hres, readerStep_of_result h]
      exact Or.inr (Or.inl h)
    · rw [Done, hres, hout]
      by_cases hnone : t.reader.result = none
      · cases turn with
        | idle =>
          rw [readerStep_idle]
          exact Or.inr (Or.inr h)
        | closed =>
          rw [readerStep_closed hnone]
          exact Or.inr (Or.inl (Option.some_ne_none _))
        | data n =>
          rw [readerStep_nil n h]
          exact Or.inr (Or.inr h)
      · rw [readerStep_of_result hnone]
        exact Or.inr (Or.inl hnone)

theorem done_run (h : Done t) (turns : List Turn) : Done (recorderRun t turns) := by
  induction turns generalizing t with
  | nil => exact h
  | cons turn turns ih => exact ih (done_step h turn)

/-- As many turns with bytes as there are bytes are enough. -/
theorem done_of_length {turns : List Turn}
    (h : t.reader.outstanding.length ≤ turns.countP Turn.isData) : Done (recorderRun t turns) := by
  induction turns generalizing t with
  | nil => exact Or.inr (Or.inr (List.length_eq_zero_iff.mp (Nat.le_zero.mp h)))
  | cons turn turns ih =>
    by_cases hdone : Done t
    · exact done_run hdone (turn :: turns)
    · simp only [Done, not_or, Bool.not_eq_true, not_not] at hdone
      obtain ⟨hfault, hres, hout⟩ := hdone
      obtain ⟨houtNext, hresNext⟩ := reader_recorderStep hfault turn
      rw [List.countP_cons] at h
      cases turn with
      | idle =>
        refine ih ?_
        rw [houtNext, readerStep_idle]
        exact h
      | closed =>
        refine done_run (Or.inr (Or.inl ?_)) turns
        rw [hresNext, readerStep_closed hres]
        exact Option.some_ne_none _
      | data n =>
        rcases outstanding_lt hres hout n with hstop | hlt
        · exact done_run (Or.inr (Or.inl (hresNext ▸ hstop))) turns
        · refine ih ?_
          rw [houtNext]
          have hone : (if (Turn.data n).isData = true then 1 else 0) = 1 := rfl
          omega

end ProgrammingPath.Rtsp
