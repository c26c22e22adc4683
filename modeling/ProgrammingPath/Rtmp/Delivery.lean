import ProgrammingPath.Rtmp.StreamOut

/-!
# Which payloads are delivered

With the gate open, the sender for H.264 hands over every slice and every IDR slice with one byte more
than it has, and that for H.265 the slices of five types, each up to the next start code. So the first
delivers exactly the coded slices of a buffer only if there are none, and the second if it has only
slices of these types and no more zero bytes between the units than a start code has.
-/

namespace ProgrammingPath.Rtmp

open ProgrammingPath.Lib

/-! ## One unit -/

/-- What `RTMPStreamOut_Send` does with a unit. -/
def h264Slot (decode : DecodeSps) (ms : Int) (out : StreamOut) (sl : Slot) : Option StreamOut :=
  let type := naluType sl.nal.head
  let out := if type = .sps ∨ type = .pps then { out with frameSpsExists := true } else out
  if out.frameSpsExists then h264SendNal decode ms out sl.mem (sl.length + 1) else some out

/-- What `RTMPStreamOut_SendH265` does with a unit. -/
def h265Slot (decode : DecodeSps) (ms : Int) (out : StreamOut) (sl : Slot) : Option StreamOut :=
  let out := if hevcType sl.nal.head = .vps then { out with frameSpsExists := true } else out
  if out.frameSpsExists then h265SendNal decode ms out sl.mem sl.length else some out

theorem headD_mem (sl : Slot) : sl.mem.headD 0 = sl.nal.head := by
  rw [List.headD_eq_head?_getD, Slot.mem, Nal.head?_append]
  rfl

theorem h264Turn_coded (decode : DecodeSps) (ms : Int) (out : StreamOut) (zeros : Nat) (sl : Slot) :
    h264Turn decode ms out (coded zeros sl.mem)
      ⟨zeros - codeZeros zeros, zeros + 3, zeros + 3 + sl.length⟩ = h264Slot decode ms out sl := by
  have hzeros : codeZeros zeros ≤ zeros := Nat.min_le_left _ _
  have hsize : zeros + 3 + sl.length - (zeros - codeZeros zeros) =
      codeZeros zeros + 3 + sl.length := by omega
  have hnal : codeZeros zeros + 3 + sl.length - (codeZeros zeros + 3) + 1 = sl.length + 1 := by omega
  have horder : ¬zeros + 3 + sl.length < zeros - codeZeros zeros := by omega
  simp only [h264Turn, h264Slot, drop_coded, headD_mem, if_neg horder, drop_coded_zeros, hsize,
    h264SendPacket, naluFind_slot, hnal]

theorem h265Turn_coded (decode : DecodeSps) (ms : Int) (out : StreamOut) (zeros : Nat) (sl : Slot) :
    h265Turn decode ms out (coded zeros sl.mem)
      ⟨zeros - codeZeros zeros, zeros + 3, zeros + 3 + sl.length⟩ = h265Slot decode ms out sl := by
  have hzeros : codeZeros zeros ≤ zeros := Nat.min_le_left _ _
  have hsize : zeros + 3 + sl.length - (zeros - codeZeros zeros) =
      codeZeros zeros + 3 + sl.length := by omega
  have hnal : codeZeros zeros + 3 + sl.length - (codeZeros zeros + 3) = sl.length := by omega
  have horder : ¬zeros + 3 + sl.length < zeros - codeZeros zeros := by omega
  simp only [h265Turn, h265Slot, drop_coded, headD_mem, if_neg horder, drop_coded_zeros, hsize,
    h265SendPacket, naluFind_slot, codeZeros_codeZeros, hnal]

/-- `RTMPStreamOut_Send` takes the units of a buffer one by one. -/
theorem rtmpStreamOutSend_eq (decode : DecodeSps) {out : StreamOut} (hopen : out.isopen = true)
    (b : AnnexB) (behind : List UInt8) (ms : Int) :
    rtmpStreamOutSend decode out (b.bytes ++ behind) b.bytes.length ms =
      (AnnexB.slots b behind).foldlM (h264Slot decode ms) out := by
  rw [rtmpStreamOutSend, if_pos hopen, unitLoop_eq (h264Turn_coded decode ms)]

theorem rtmpStreamOutSendH265_eq (decode : DecodeSps) {out : StreamOut} (hopen : out.isopen = true)
    (b : AnnexB) (behind : List UInt8) (ms : Int) :
    rtmpStreamOutSendH265 decode out (b.bytes ++ behind) b.bytes.length ms =
      (AnnexB.slots b behind).foldlM (h265Slot decode ms) out := by
  rw [rtmpStreamOutSendH265, if_pos hopen, unitLoop_eq (h265Turn_coded decode ms)]

/-! ## The payloads -/

/-- The payloads among what was sent. -/
def payloads (packets : List Packet) : List Payload :=
  packets.filterMap fun
    | .nalu payload _ _ => some payload
    | _ => none

theorem payloads_append (ps qs : List Packet) : payloads (ps ++ qs) = payloads ps ++ payloads qs :=
  List.filterMap_append

/-- Slices that the sender for H.264 hands over. -/
def h264Sends (n : Nal) : Bool := naluType n.head = .slice || naluType n.head = .idr

/-- Slices that the sender for H.265 hands over. -/
def h265Sends (n : Nal) : Bool :=
  hevcType n.head = .trailR || hevcType n.head = .bla || hevcType n.head = .blaNLp ||
    hevcType n.head = .idr || hevcType n.head = .idrNLp

/-- The coded slices of H.264, with those in partitions. -/
def isSlice (n : Nal) : Bool :=
  naluType n.head = .slice || naluType n.head = .dpa || naluType n.head = .dpb ||
    naluType n.head = .dpc || naluType n.head = .idr

/-- The coded slices of H.265. -/
def isHevcSlice (n : Nal) : Bool :=
  match hevcType n.head with
  | .vps | .sps | .pps | .sei | .other => false
  | _ => true

@[simp] theorem payloads_sendNalu (out : StreamOut) (ptr : List UInt8) (size : Nat) (key : Bool)
    (ms : Int) : payloads (out.sendNalu ptr size key ms).sent = payloads out.sent ++ [⟨ptr, size⟩] := by
  rw [StreamOut.sendNalu, payloads_append]
  rfl

@[simp] theorem payloads_sendConfiguration (out : StreamOut) :
    payloads out.sendConfiguration.sent = payloads out.sent := by
  rw [StreamOut.sendConfiguration]
  split
  · rw [payloads_append]
    exact List.append_nil _
  · rfl

@[simp] theorem payloads_sendHevcMetaData (out : StreamOut) :
    payloads out.sendHevcMetaData.sent = payloads out.sent := by
  rw [StreamOut.sendHevcMetaData]
  split
  · rw [payloads_append]
    exact List.append_nil _
  · rfl

@[simp] theorem payloads_sendHevcHeader (out : StreamOut) :
    payloads out.sendHevcHeader.sent = payloads out.sent := by
  rw [StreamOut.sendHevcHeader, payloads_append]
  exact List.append_nil _

@[simp] theorem gate_sendConfiguration (out : StreamOut) :
    out.sendConfiguration.frameSpsExists = out.frameSpsExists := by
  rw [StreamOut.sendConfiguration]
  split <;> rfl

@[simp] theorem gate_sendHevcMetaData (out : StreamOut) :
    out.sendHevcMetaData.frameSpsExists = out.frameSpsExists := by
  rw [StreamOut.sendHevcMetaData]
  split <;> rfl

@[simp] theorem gate_sendHevcHeader (out : StreamOut) :
    out.sendHevcHeader.frameSpsExists = out.frameSpsExists := rfl

@[simp] theorem gate_sendNalu (out : StreamOut) (ptr : List UInt8) (size : Nat) (key : Bool) (ms : Int) :
    (out.sendNalu ptr size key ms).frameSpsExists = out.frameSpsExists := rfl

/-- Parameter sets are kept without sending anything. -/
@[simp] theorem keepSps_sent (out : StreamOut) (nal : List UInt8) (nalLen : Nat) (size : Int × Int) :
    (out.keepSps nal nalLen size).sent = out.sent ∧
      (out.keepSps nal nalLen size).frameSpsExists = out.frameSpsExists := by
  rw [StreamOut.keepSps]
  dsimp only
  split <;> exact ⟨rfl, rfl⟩

@[simp] theorem keepHevcSps_sent (out : StreamOut) (nal : List UInt8) (nalLen : Nat) (size : Int × Int) :
    (out.keepHevcSps nal nalLen size).sent = out.sent ∧
      (out.keepHevcSps nal nalLen size).frameSpsExists = out.frameSpsExists := ⟨rfl, rfl⟩

@[simp] theorem keepPps_sent (out : StreamOut) (nal : List UInt8) (nalLen : Nat) :
    (out.keepPps nal nalLen).sent = out.sent ∧
      (out.keepPps nal nalLen).frameSpsExists = out.frameSpsExists := ⟨rfl, rfl⟩

@[simp] theorem keepVps_sent (out : StreamOut) (nal : List UInt8) (nalLen : Nat) :
    (out.keepVps nal nalLen).sent = out.sent ∧
      (out.keepVps nal nalLen).frameSpsExists = out.frameSpsExists := ⟨rfl, rfl⟩

/-- What a step does to the gate and to the payloads: it can fail only on a parameter set, it leaves the
gate open, and it hands over these payloads. -/
structure HandsOver (r : Option StreamOut) (fails : Prop) (out : StreamOut) (ps : List Payload) :
    Prop where
  none_iff : r = none ↔ fails
  some_spec : ∀ out' ∈ r, out'.frameSpsExists = true ∧ payloads out'.sent = payloads out.sent ++ ps

/-- The parameter set that `decode` cannot take. -/
def h264Fails (decode : DecodeSps) (sl : Slot) : Prop :=
  naluType sl.nal.head = .sps ∧ decode (sl.mem.take (sl.length + 1)) = none

def h265Fails (decode : DecodeSps) (sl : Slot) : Prop :=
  hevcType sl.nal.head = .sps ∧ decode (sl.mem.take sl.length) = none

/-- With the gate open every unit is sent. -/
theorem h264Slot_open (decode : DecodeSps) (ms : Int) {out : StreamOut}
    (hgate : out.frameSpsExists = true) (sl : Slot) :
    h264Slot decode ms out sl = h264SendNal decode ms out sl.mem (sl.length + 1) := by
  have hout : (if naluType sl.nal.head = .sps ∨ naluType sl.nal.head = .pps then
      { out with frameSpsExists := true } else out) = out := by
    split
    · rw [← hgate]
    · rfl
  rw [h264Slot]
  simp only [hout, if_pos hgate]

theorem h265Slot_open (decode : DecodeSps) (ms : Int) {out : StreamOut}
    (hgate : out.frameSpsExists = true) (sl : Slot) :
    h265Slot decode ms out sl = h265SendNal decode ms out sl.mem sl.length := by
  have hout : (if hevcType sl.nal.head = .vps then { out with frameSpsExists := true } else out) =
      out := by
    split
    · rw [← hgate]
    · rfl
  rw [h265Slot]
  simp only [hout, if_pos hgate]

theorem h264Slot_handsOver (decode : DecodeSps) (ms : Int) {out : StreamOut}
    (hgate : out.frameSpsExists = true) (sl : Slot) :
    HandsOver (h264Slot decode ms out sl) (h264Fails decode sl) out
      (if h264Sends sl.nal then [⟨sl.mem, sl.length + 1⟩] else []) := by
  rw [h264Slot_open decode ms hgate]
  cases htype : naluType sl.nal.head with
  | sps =>
    simp only [h264SendNal, headD_mem, htype, h264Sends, h264Fails]
    cases decode (sl.mem.take (sl.length + 1)) with
    | none => exact ⟨by simp, by simp⟩
    | some size => exact ⟨by simp, by simp [hgate]⟩
  | idr | slice | pps | dpa | dpb | dpc | sei | aud | other =>
    simp only [h264SendNal, headD_mem, htype, h264Sends, h264Fails]
    exact ⟨by simp, by simp [hgate]⟩

theorem h265Slot_handsOver (decode : DecodeSps) (ms : Int) {out : StreamOut}
    (hgate : out.frameSpsExists = true) (sl : Slot) :
    HandsOver (h265Slot decode ms out sl) (h265Fails decode sl) out
      (if h265Sends sl.nal then [⟨sl.mem, sl.length⟩] else []) := by
  rw [h265Slot_open decode ms hgate]
  cases htype : hevcType sl.nal.head with
  | sps =>
    simp only [h265SendNal, headD_mem, htype, h265Sends, h265Fails]
    cases decode (sl.mem.take sl.length) with
    | none => exact ⟨by simp, by simp⟩
    | some size => exact ⟨by simp, by simp [hgate]⟩
  | _ =>
    simp only [h265SendNal, headD_mem, htype, h265Sends, h265Fails]
    exact ⟨by simp, by simp [hgate]⟩

/-! ## A buffer -/

/-- A fold over the units, when each hands over what `payload` says. -/
theorem foldlM_handsOver {step : StreamOut → Slot → Option StreamOut} {fails : Slot → Prop}
    {payload : Slot → List Payload}
    (hstep : ∀ out sl, out.frameSpsExists = true → HandsOver (step out sl) (fails sl) out (payload sl))
    (sls : List Slot) {out : StreamOut} (hgate : out.frameSpsExists = true) :
    HandsOver (sls.foldlM step out) (∃ sl ∈ sls, fails sl) out (sls.flatMap payload) := by
  induction sls generalizing out with
  | nil => exact ⟨by simp, by simp [hgate]⟩
  | cons sl sls ih =>
    obtain ⟨hnone, hsome⟩ := hstep out sl hgate
    rw [List.foldlM_cons, List.flatMap_cons]
    cases hturn : step out sl with
    | none =>
      refine ⟨⟨fun _ => ⟨sl, List.mem_cons_self, hnone.mp hturn⟩, fun _ => rfl⟩, ?_⟩
      rintro out' ⟨⟩
    | some out' =>
      obtain ⟨hgate', hpayload⟩ := hsome out' hturn
      obtain ⟨hnone', hsome'⟩ := ih hgate'
      have hnot : ¬fails sl := by
        intro hfails
        rw [hnone.mpr hfails] at hturn
        cases hturn
      refine ⟨?_, ?_⟩
      · rw [List.exists_mem_cons_iff, or_iff_right hnot]
        exact hnone'
      · intro out'' hout''
        obtain ⟨hgate'', hpayload'⟩ := hsome' out'' hout''
        exact ⟨hgate'', by rw [hpayload', hpayload, List.append_assoc]⟩

/-- A payload is a unit, with its bytes and its length. -/
def Exact (p : Payload) (n : Nal) : Prop := p.size = n.bytes.length ∧ p.ptr.take p.size = n.bytes

/-- A call returns, and has handed over these units, in this order and nothing else. -/
def Delivers (r : Option StreamOut) (out : StreamOut) (ns : List Nal) : Prop :=
  ∃ out' ∈ r, ∃ ps, payloads out'.sent = payloads out.sent ++ ps ∧ List.Forall₂ Exact ps ns

theorem exact_iff (sl : Slot) (extra : Nat) :
    Exact ⟨sl.mem, sl.length + extra⟩ sl.nal ↔ sl.pad + extra = 0 := by
  constructor
  · rintro ⟨hsize, -⟩
    have hsize : sl.nal.bytes.length + sl.pad + extra = sl.nal.bytes.length := hsize
    omega
  · intro h
    have hsize : sl.length + extra = sl.nal.bytes.length := by
      rw [Slot.length]
      omega
    exact ⟨hsize, by rw [hsize, Slot.mem, List.take_left]⟩

theorem flatMap_ite {α β : Type} (p : α → Bool) (f : α → β) (l : List α) :
    (l.flatMap fun a => if p a then [f a] else []) = (l.filter p).map f := by
  induction l with
  | nil => rfl
  | cons a l ih =>
    rw [List.flatMap_cons, ih, List.filter_cons]
    split <;> rfl

/-- When units of the kind `sends` are handed over with `extra` bytes, those of the kind `slice` are
delivered if and only if they are all sent, and none has zero or extra bytes behind it. -/
theorem delivers_iff_of_handsOver {r : Option StreamOut} {fails : Prop} {out : StreamOut}
    {sls : List Slot} {sends slice : Nal → Bool} (extra : Nat)
    (h : HandsOver r fails out (sls.flatMap fun sl =>
      if sends sl.nal then [⟨sl.mem, sl.length + extra⟩] else []))
    (hsends : ∀ n, sends n = true → slice n = true) :
    Delivers r out ((sls.map Slot.nal).filter slice) ↔
      ¬fails ∧ ∀ sl ∈ sls, slice sl.nal = true → sends sl.nal = true ∧ sl.pad + extra = 0 := by
  have hslices : (sls.map Slot.nal).filter slice = (sls.filter fun sl => slice sl.nal).map Slot.nal := by
    rw [List.filter_map]
    rfl
  have hsub : (sls.filter fun sl => sends sl.nal).Sublist (sls.filter fun sl => slice sl.nal) :=
    List.monotone_filter_right sls fun sl => hsends sl.nal
  rw [flatMap_ite] at h
  rw [hslices]
  obtain ⟨hnone, hsome⟩ := h
  constructor
  · rintro ⟨out', hout', ps, hps, hexact⟩
    have heq := (hsome out' hout').2
    rw [hps, List.append_right_inj] at heq
    rw [heq] at hexact
    -- as many are handed over as there are, so all of them are
    have hall : (sls.filter fun sl => sends sl.nal) = sls.filter fun sl => slice sl.nal := by
      apply hsub.eq_of_length
      simpa using hexact.length_eq
    rw [hall, List.forall₂_map_left_iff, List.forall₂_map_right_iff, List.forall₂_same] at hexact
    refine ⟨fun hfails => ?_, fun sl hsl hslice => ?_⟩
    · rw [hnone.mpr hfails] at hout'
      cases hout'
    · have hmem : sl ∈ sls.filter fun sl => slice sl.nal := List.mem_filter.mpr ⟨hsl, hslice⟩
      refine ⟨?_, (exact_iff sl extra).mp (hexact sl hmem)⟩
      rw [← hall] at hmem
      exact (List.mem_filter.mp hmem).2
  · rintro ⟨hfails, hall⟩
    obtain ⟨out', hout'⟩ : ∃ out', r = some out' := by
      apply Option.ne_none_iff_exists'.mp
      exact fun hr => hfails (hnone.mp hr)
    refine ⟨out', hout', _, (hsome out' hout').2, ?_⟩
    have hfilter : (sls.filter fun sl => sends sl.nal) = sls.filter fun sl => slice sl.nal := by
      apply List.filter_congr
      intro sl hsl
      rw [Bool.eq_iff_iff]
      exact ⟨hsends sl.nal, fun hslice => (hall sl hsl hslice).1⟩
    rw [hfilter, List.forall₂_map_left_iff, List.forall₂_map_right_iff, List.forall₂_same]
    intro sl hsl
    obtain ⟨hmem, hslice⟩ := List.mem_filter.mp hsl
    exact (exact_iff sl extra).mpr (hall sl hmem hslice).2

theorem isSlice_of_h264Sends (n : Nal) (h : h264Sends n = true) : isSlice n = true := by
  rw [h264Sends, Bool.or_eq_true, decide_eq_true_iff, decide_eq_true_iff] at h
  rw [isSlice]
  rcases h with h | h
  · simp [h]
  · simp [h]

theorem isHevcSlice_of_h265Sends (n : Nal) (h : h265Sends n = true) : isHevcSlice n = true := by
  simp only [h265Sends, Bool.or_eq_true, decide_eq_true_iff] at h
  rw [isHevcSlice]
  rcases h with (((h | h) | h) | h) | h
  all_goals rw [h]

/-- With the gate open. `RTMPStreamOut_Send` delivers exactly the coded slices of a buffer if and only if
it has none; `RTMPStreamOut_SendH265` if and only if they are all of a type that it sends, with no zero
bytes behind them but those of a start code. No call may come to a parameter set that `decode` cannot
take. -/
theorem delivers_iff (decode decodeHevc : DecodeSps) {out : StreamOut} (hopen : out.isopen = true)
    (hgate : out.frameSpsExists = true) (b : AnnexB) (behind : List UInt8) (ms : Int) :
    (Delivers (rtmpStreamOutSend decode out (b.bytes ++ behind) b.bytes.length ms) out
        (b.nals.filter isSlice) ↔
      (∀ n ∈ b.nals, isSlice n = false) ∧
        ∀ sl ∈ AnnexB.slots b behind, ¬h264Fails decode sl) ∧
    (Delivers (rtmpStreamOutSendH265 decodeHevc out (b.bytes ++ behind) b.bytes.length ms) out
        (b.nals.filter isHevcSlice) ↔
      (∀ sl ∈ AnnexB.slots b behind, isHevcSlice sl.nal = true → h265Sends sl.nal = true ∧ sl.pad = 0) ∧
        ∀ sl ∈ AnnexB.slots b behind, ¬h265Fails decodeHevc sl) := by
  have hnals : b.nals = (AnnexB.slots b behind).map Slot.nal :=
    (map_nal_slots b.units b.trailing behind).symm
  constructor
  · have h := foldlM_handsOver (fun _ sl hg => h264Slot_handsOver decode ms hg sl)
      (AnnexB.slots b behind) hgate
    rw [rtmpStreamOutSend_eq decode hopen, hnals, delivers_iff_of_handsOver 1 h isSlice_of_h264Sends,
      and_comm, not_exists, List.forall_mem_map]
    apply and_congr
    · refine forall₂_congr fun sl _ => ?_
      rw [← Bool.not_eq_true]
      exact ⟨fun hslice his => Nat.succ_ne_zero _ (hslice his).2, fun hnot his => absurd his hnot⟩
    · simp only [not_and]
  · have h := foldlM_handsOver (fun _ sl hg => h265Slot_handsOver decodeHevc ms hg sl)
      (AnnexB.slots b behind) hgate
    rw [rtmpStreamOutSendH265_eq decodeHevc hopen, hnals,
      delivers_iff_of_handsOver 0 h isHevcSlice_of_h265Sends, and_comm, not_exists]
    simp only [not_and, Nat.add_zero]

/-- A slice of an IDR picture with two bytes. -/
def idrNal : Nal where
  bytes := [0x65, 0x88]
  ne_nil := by decide
  no_code := by
    intro hin
    have hle : 3 ≤ 2 := hin.length_le
    omega
  last_ne := by
    rintro b ⟨⟩
    decide

/-- One of H.265. -/
def hevcIdrNal : Nal where
  bytes := [0x26, 0x01]
  ne_nil := by decide
  no_code := by
    intro hin
    have hle : 3 ≤ 2 := hin.length_le
    omega
  last_ne := by
    rintro b ⟨⟩
    decide

/-- A stream whose gate is open. -/
def gateOpen : StreamOut := { StreamOut.opened 640 480 25 with frameSpsExists := true }

theorem delivers_iff_hevcIdr :
    Delivers (rtmpStreamOutSendH265 (fun _ => some (0, 0)) gateOpen
      ((AnnexB.mk [⟨1, hevcIdrNal⟩] 0).bytes ++ [0xAA]) (AnnexB.mk [⟨1, hevcIdrNal⟩] 0).bytes.length 40)
      gateOpen ((AnnexB.mk [⟨1, hevcIdrNal⟩] 0).nals.filter isHevcSlice) := by
  apply (delivers_iff (fun _ => none) (fun _ => some (0, 0)) rfl rfl (AnnexB.mk [⟨1, hevcIdrNal⟩] 0)
    [0xAA] 40).2.mpr
  constructor
  · decide +kernel
  · rintro sl hsl ⟨-, hfails⟩
    cases hfails

/-- The slice is handed over with the byte behind the buffer. -/
theorem idr_delivered_too_long :
    (rtmpStreamOutSend (fun _ => some (0, 0)) gateOpen
      ((AnnexB.mk [⟨1, idrNal⟩] 0).bytes ++ [0xAA]) (AnnexB.mk [⟨1, idrNal⟩] 0).bytes.length 40).map
        (fun out => payloads out.sent) = some [⟨[0x65, 0x88, 0xAA], 3⟩] ∧
    ¬Delivers (rtmpStreamOutSend (fun _ => some (0, 0)) gateOpen
      ((AnnexB.mk [⟨1, idrNal⟩] 0).bytes ++ [0xAA]) (AnnexB.mk [⟨1, idrNal⟩] 0).bytes.length 40)
      gateOpen ((AnnexB.mk [⟨1, idrNal⟩] 0).nals.filter isSlice) := by
  have hrun : (rtmpStreamOutSend (fun _ => some (0, 0)) gateOpen
      ((AnnexB.mk [⟨1, idrNal⟩] 0).bytes ++ [0xAA]) (AnnexB.mk [⟨1, idrNal⟩] 0).bytes.length 40).map
        (fun out => payloads out.sent) = some [⟨[0x65, 0x88, 0xAA], 3⟩] := by decide +kernel
  refine ⟨hrun, ?_⟩
  rintro ⟨out', hout', ps, hps, hexact⟩
  rw [hout', Option.map_some, Option.some.injEq, hps] at hrun
  have hps : ps = [⟨[0x65, 0x88, 0xAA], 3⟩] := hrun
  have hslices : (AnnexB.mk [⟨1, idrNal⟩] 0).nals.filter isSlice = [idrNal] := by decide +kernel
  rw [hps, hslices] at hexact
  cases hexact with
  | cons h _ => exact absurd h.1 (by decide)

end ProgrammingPath.Rtmp
