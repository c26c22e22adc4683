import ProgrammingPath.Flv.Configuration
import ProgrammingPath.Lib.FrameClock
import ProgrammingPath.Rtmp.VideoOut

/-!
# Time stamps

`flv_out_video_h264` and `RTMPStreamOut_Send` count the time in `nTimeStamp`, a number of 32 bits.
Both add the time of a buffer once for every unit that they write of it, so the slices of a picture
do not get one time, and both carry only the low 24 bits: the writer sets `TimestampExtended` to
zero, and the sender masks the number.
-/

namespace ProgrammingPath.Flv

open ProgrammingPath.Lib ProgrammingPath.Rtmp

/-! ## In a tag -/

/-- The time stamp of a tag: the field and, above it, `TimestampExtended`. -/
def Write.timestamp : Write → Nat
  | .head _ => 0
  | .tag _ tagHeader _ =>
    ofBigEndian [tagHeader.getD 7 0, tagHeader.getD 4 0, tagHeader.getD 5 0, tagHeader.getD 6 0]

/-- That of a tag with a unit. -/
def Write.unitStamp (w : Write) : Option Nat :=
  if avcPacketType w = some 1 then some w.timestamp else none

/-- The time stamps of the units that were written. -/
def FlvOut.stamps (flv : FlvOut) : List Nat := flv.writes.filterMap Write.unitStamp

/-- Only 24 bits are carried. -/
theorem timestamp_flvOutTag (previousTagSize tagData : List UInt8) (tagType : UInt8)
    (timestamp : Int) :
    Write.timestamp (.tag previousTagSize (tagType :: (bigEndian 3 tagData.length ++
      (bigEndian 3 (timestamp % 256 ^ 3).toNat ++ [0, 0, 0, 0]))) tagData) =
        (timestamp % 256 ^ 3).toNat := by
  have hlt : (timestamp % 256 ^ 3).toNat < 256 ^ 3 := by omega
  have hread := ofBigEndian_bigEndian hlt
  obtain ⟨t2, t1, t0, ht⟩ : ∃ a b c, bigEndian 3 (timestamp % 256 ^ 3).toNat = [a, b, c] :=
    ⟨_, _, _, rfl⟩
  obtain ⟨n2, n1, n0, hn⟩ : ∃ a b c, bigEndian 3 tagData.length = [a, b, c] := ⟨_, _, _, rfl⟩
  rw [ht] at hread
  rw [ht, hn, ← hread]
  show ofBigEndian [0, t2, t1, t0] = ofBigEndian [t2, t1, t0]
  simp [ofBigEndian]

theorem avcPacketType_packetBody (previousTagSize header data : List UInt8) (bIsKeyFrame : Bool) :
    avcPacketType (.tag previousTagSize (0x09 :: header)
      (packetBody (if bIsKeyFrame then 0x17 else 0x27) data)) = some 1 := by
  cases bIsKeyFrame <;> rfl

theorem stamps_flvSendPacketH264 (flv : FlvOut) (data : List UInt8) (bIsKeyFrame : Bool)
    (nTimeStamp : Int) :
    (flvSendPacketH264 flv data bIsKeyFrame nTimeStamp).stamps =
      flv.stamps ++ [(nTimeStamp % 256 ^ 3).toNat] := by
  rw [FlvOut.stamps, flvSendPacketH264, flvOutTag, List.filterMap_append, ← FlvOut.stamps]
  congr 1
  rw [List.filterMap_cons_some (b := (nTimeStamp % 256 ^ 3).toNat)]
  · rfl
  · rw [Write.unitStamp, if_pos (avcPacketType_packetBody _ _ _ _), timestamp_flvOutTag]

/-! ## In a buffer -/

/-- A unit is written: an IDR slice, or another slice behind one. -/
def Written (key : Bool) (n : NalRef) : Prop :=
  naluType n.head = .idr ∨ naluType n.head = .slice ∧ key = true

instance (key : Bool) (n : NalRef) : Decidable (Written key n) := inferInstanceAs (Decidable (_ ∨ _))

/-- An IDR slice has come. -/
def keyAfter (key : Bool) (n : NalRef) : Bool := key || naluType n.head == .idr

/-- The number of units that are written. -/
def codedUnits : Bool → List NalRef → Nat
  | _, [] => 0
  | key, n :: ns => codedUnits (keyAfter key n) ns + if Written key n then 1 else 0

/-- The configuration has no stamp. -/
theorem stamps_sendConfiguration {flv flv' : FlvOut} {heap : Mem}
    (h : flv.sendConfiguration heap = some flv') :
    flv'.stamps = flv.stamps ∧ flv'.mdata.nTimeStamp = flv.mdata.nTimeStamp := by
  rcases sendConfiguration_cases h with ⟨-, rfl⟩ | ⟨-, hmdata, -, -, w₀, w₁, hwrites, h₀, h₁, -⟩
  · exact ⟨rfl, rfl⟩
  · have hnone₀ : Write.unitStamp w₀ = none := by simp [Write.unitStamp, h₀]
    have hnone₁ : Write.unitStamp w₁ = none := by simp [Write.unitStamp, h₁]
    rw [FlvOut.stamps, hwrites, hmdata]
    simp [FlvOut.stamps, hnone₀, hnone₁]

/-- What a unit does to the stamps, the clock and the key frame. -/
theorem h264Nal_time {v : Video} {flv flv' : FlvOut} {n : NalRef} (h : h264Nal v flv n = some flv') :
    flv'.frameKeyExists = keyAfter flv.frameKeyExists n ∧
      if Written flv.frameKeyExists n then
        flv'.stamps = flv.stamps ++ [(flv.mdata.nTimeStamp % 256 ^ 3).toNat] ∧
          flv'.mdata.nTimeStamp = flv.mdata.nTimeStamp + v.ms
      else flv'.stamps = flv.stamps ∧ flv'.mdata.nTimeStamp = flv.mdata.nTimeStamp := by
  rw [h264Nal] at h
  split at h
  · next htype =>
    obtain ⟨size, -, rfl⟩ := Option.map_eq_some_iff.mp h
    simp [Written, keyAfter, htype, FlvOut.keepSps, FlvOut.stamps]
  · next htype =>
    cases h
    simp [Written, keyAfter, htype, FlvOut.keepPps, FlvOut.stamps]
  · next htype =>
    obtain ⟨flv₁, hsend, rfl⟩ := Option.map_eq_some_iff.mp h
    obtain ⟨hstamps, hclock⟩ := stamps_sendConfiguration hsend
    have hpacket := stamps_flvSendPacketH264 { flv₁ with frameKeyExists := true } n.bytes true
      flv₁.mdata.nTimeStamp
    rw [if_pos (.inl htype), ← hstamps, ← hclock]
    exact ⟨by simp [keyAfter, htype, FlvOut.addTime, flvSendPacketH264, flvOutTag], hpacket, rfl⟩
  · next htype =>
    split at h
    · next hkey =>
      cases h
      rw [if_pos (.inr ⟨htype, hkey⟩)]
      exact ⟨by simp [keyAfter, hkey, FlvOut.addTime, flvSendPacketH264, flvOutTag],
        stamps_flvSendPacketH264 flv n.bytes false flv.mdata.nTimeStamp, rfl⟩
    · next hkey =>
      cases h
      simp [Written, keyAfter, htype, hkey]
  · next hsps hpps hidr hslice =>
    cases h
    have htypes : naluType n.head ≠ .idr ∧ naluType n.head ≠ .slice := ⟨hidr, hslice⟩
    simp [Written, keyAfter, htypes]

/-- The units of a buffer, one after the other: the clock moves with each. -/
theorem h264Units_time {v : Video} {ns : List NalRef} {flv flv' : FlvOut}
    (h : ns.foldlM (h264Nal v) flv = some flv') :
    let turn : Turn := ⟨v.ms, codedUnits flv.frameKeyExists ns, codedUnits flv.frameKeyExists ns⟩
    flv'.stamps = flv.stamps ++
        (turn.stamps flv.mdata.nTimeStamp).map (fun stamp => (stamp % 256 ^ 3).toNat) ∧
      flv'.mdata.nTimeStamp = turn.after flv.mdata.nTimeStamp ∧
      flv'.frameKeyExists = ns.foldl keyAfter flv.frameKeyExists := by
  induction ns generalizing flv with
  | nil =>
    cases h
    simp [codedUnits, Turn.stamps, Turn.after]
  | cons n ns ih =>
    rw [List.foldlM_cons] at h
    obtain ⟨flv₁, hstep, hrest⟩ := Option.bind_eq_some_iff.mp h
    obtain ⟨hkey, htime⟩ := h264Nal_time hstep
    obtain ⟨hstamps, hclock, hkeys⟩ := ih hrest
    rw [hkey] at hstamps hclock hkeys
    rw [codedUnits, List.foldl_cons]
    generalize codedUnits (keyAfter flv.frameKeyExists n) ns = rest at hstamps hclock
    split at htime
    · next hwritten =>
      obtain ⟨hstamp, hmoved⟩ := htime
      rw [if_pos hwritten]
      refine ⟨?_, ?_, hkeys⟩
      · rw [hstamps, hstamp, hmoved, stamps_succ v.ms _ _ rest, List.append_assoc]
        rfl
      · rw [hclock, hmoved, after_succ v.ms _ _ _ rest]
    · next hwritten =>
      obtain ⟨hstamp, hmoved⟩ := htime
      rw [if_neg hwritten, Nat.add_zero, ← hstamp, ← hmoved]
      exact ⟨hstamps, hclock, hkeys⟩

/-! ## Calls of the writer -/

theorem carried_pos : (0 : Int) < 256 ^ 3 := by decide

/-- `flv_out_video_h264` as a sender; its mode is whether there was an IDR slice. -/
def flvSender : Sender FlvOut Video Bool where
  step := flvOutVideoH264
  ms := Video.ms
  stamps := FlvOut.stamps
  clock flv := flv.mdata.nTimeStamp
  mode := FlvOut.frameKeyExists
  low := 256 ^ 3
  turn key v := ⟨v.ms, codedUnits key v.nals, codedUnits key v.nals⟩
  next key v := v.nals.foldl keyAfter key
  low_pos := carried_pos
  turn_ms _ _ := rfl
  stamps_step h := (h264Units_time (by rwa [flvOutVideoH264, nalLoop_eq] at h)).1
  clock_step h := (h264Units_time (by rwa [flvOutVideoH264, nalLoop_eq] at h)).2.1
  mode_step h := (h264Units_time (by rwa [flvOutVideoH264, nalLoop_eq] at h)).2.2

theorem turns_flvSender (key : Bool) (vs : List Video) :
    ∀ t ∈ flvSender.turns key vs, t.attempts = t.written :=
  flvSender.forall_turns (fun _ _ => rfl) key vs

/-- The stamps of the writer, of which 32 bits count. -/
theorem stamped_flv_iff {vs : List Video} {flv : FlvOut}
    (h : run flvOutVideoH264 (flvOutStart .built) vs = some flv) :
    Stamped flvOutVideoH264 FlvOut.stamps Video.ms (256 ^ 4) (flvOutStart .built) 0 vs ↔
      SteadyTime (256 ^ 3) (256 ^ 4) 0 (flvSender.turns false vs) := by
  have hdvd : flvSender.low ∣ 256 ^ 4 := ⟨256, rfl⟩
  exact (flvSender.stamped_iff_steady (by decide) hdvd h 0).trans
    (steady_iff (turns_flvSender false vs) rfl)

/-- Those of the sender. -/
theorem stamped_rtmp_iff {cs : List RtmpVideo.Sending} {out : RtmpVideo.VideoOut}
    (h : run RtmpVideo.videoStep .opened cs = some out) :
    Stamped RtmpVideo.videoStep RtmpVideo.VideoOut.stamps (·.ms) (256 ^ 4) .opened 0 cs ↔
      Steady (256 ^ 3) (256 ^ 4) 0 0 (RtmpVideo.videoSender.turns (true, false) cs) := by
  have hdvd : RtmpVideo.videoSender.low ∣ 256 ^ 4 := ⟨256, rfl⟩
  exact RtmpVideo.videoSender.stamped_iff_steady (by decide) hdvd h 0

/-- Two pictures of one slice each. -/
def onePerBuffer : List Video := [stream [spsUnit, ppsUnit, idrUnit], stream [sliceUnit]]

/-- A buffer on a connection that holds. -/
def sendingOf (v : Video) : RtmpVideo.Sending := { v with delivered := fun _ => true, connected := true }

end ProgrammingPath.Flv
