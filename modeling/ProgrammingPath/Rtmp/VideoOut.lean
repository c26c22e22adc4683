import ProgrammingPath.Flv.FlvOut
import ProgrammingPath.Lib.FrameClock

/-!
# Sending buffers over RTMP

`RTMPStreamOut_Send` in `rtmp_video.c`. It splits a buffer as the writer of FLV does, puts the units
into the same bodies, and hands them to `RTMP_SendPacket`. Nothing is sent before a buffer that
begins with a sequence parameter set. A unit that cannot be sent ends the call, after the clock has
moved.
-/

namespace ProgrammingPath.RtmpVideo

open ProgrammingPath.Lib ProgrammingPath.Flv
open ProgrammingPath.Rtmp (naluType)

/-! ## Packets -/

/-- An `RTMPPacket`, with the fields that differ. -/
structure RTMPPacket where
  packetType : UInt8
  timeStamp : Nat
  body : List UInt8
  deriving DecidableEq, Repr

/-- `RTMPStreamOut` of `rtmp_video.h`. `sent` is what was handed to `RTMP_SendPacket`, less the units
for which it failed. -/
structure VideoOut where
  isopen : Bool
  frameSpsExists : Bool
  mdata : MediaData
  sent : List RTMPPacket
  deriving DecidableEq, Repr

/-- After `RTMPStreamOut_open`. -/
def VideoOut.opened : VideoOut := ⟨true, false, ⟨0, 0, false, 0, none, none, none⟩, []⟩

/-- A buffer that is given to `RTMPStreamOut_Send`, with what surrounds the call: whether the units
arrive, one after the other (`RTMP_IsConnected`, and `RTMP_SendPacket` returned 1), and whether there
is a connection when nothing is sent. -/
structure Sending extends Video where
  delivered : Nat → Bool
  connected : Bool

def VideoOut.send (out : VideoOut) (packet : RTMPPacket) : VideoOut :=
  { out with sent := out.sent ++ [packet] }

/-- The body that `RTMP_SendMetaData` sends. -/
def rtmpMetaDataBody (codeId width height : Int) : List UInt8 :=
  [[2], putAmfString "@setDataFrame", [2], putAmfString "onMetaData", [3],
    putAmfString "duration", putAmfDouble 0,
    putAmfString "width", putAmfDouble width,
    putAmfString "height", putAmfDouble height,
    putAmfString "videodatarate", putAmfDouble 0,
    putAmfString "videocodecid", putAmfDouble codeId,
    putAmfString "", [9]].flatten

/-- `RTMP_SendMetaData`. -/
def rtmpSendMetaData (out : VideoOut) (codeId width height : Int) : VideoOut :=
  out.send ⟨0x12, 0, rtmpMetaDataBody codeId width height⟩

/-- `RTMP_SendVideoSpsPps`, with 1024 bytes for the body. -/
def rtmpSendVideoSpsPps (out : VideoOut) (timestamp : Int) (heap : Flv.Mem)
    (sps pps : Option (List UInt8)) : Option VideoOut :=
  sps.bind fun sps =>
    (inArray (spsPpsBody heap sps (blockBytes pps))).map fun body =>
      out.send ⟨0x09, (timestamp % 256 ^ 3).toNat, body⟩

/-! ## Units -/

def VideoOut.keepSps (out : VideoOut) (nal : List UInt8) (size : Int × Int) : VideoOut :=
  let changed := out.mdata.width ≠ 0 ∧ out.mdata.height ≠ 0 ∧ out.mdata.width ≠ size.1 ∧
    out.mdata.height ≠ size.2
  { out with
    mdata := { out.mdata with
      status := if changed then false else out.mdata.status
      width := size.1
      height := size.2
      sps := some nal } }

def VideoOut.keepPps (out : VideoOut) (nal : List UInt8) : VideoOut :=
  { out with mdata := { out.mdata with pps := some nal } }

/-- Meta data and sequence header, before an IDR slice. What becomes of them is not looked at. -/
def VideoOut.sendConfiguration (out : VideoOut) (heap : Flv.Mem) : Option VideoOut :=
  if out.mdata.status = false then do
    let out ← rtmpSendVideoSpsPps (rtmpSendMetaData out 7 out.mdata.width out.mdata.height) 0 heap
      out.mdata.sps out.mdata.pps
    return { out with mdata := { out.mdata with status := true } }
  else some out

/-- The loop of `_RTMP_H264SendPacket`, with the number of units that it has tried to send. -/
structure SendLoop where
  out : VideoOut
  attempts : Nat := 0
  ret : Int := 0

/-- `RTMP_H264SendPacket`, and the clock. -/
def SendLoop.sendUnit (s : SendLoop) (c : Sending) (data : List UInt8) (bIsKeyFrame : Bool) :
    SendLoop :=
  let nTimeStamp := s.out.mdata.nTimeStamp
  let packet : RTMPPacket := ⟨0x09, (nTimeStamp % 256 ^ 3).toNat,
    packetBody (if bIsKeyFrame then 0x17 else 0x27) data⟩
  let delivered := c.delivered s.attempts
  { out := { s.out with
      sent := if delivered then s.out.sent ++ [packet] else s.out.sent
      mdata := { s.out.mdata with nTimeStamp := nTimeStamp + c.ms } }
    attempts := s.attempts + 1
    ret := if delivered then 0 else -1 }

/-- A turn of the loop. After a unit that was not sent there are no turns. -/
def videoNal (c : Sending) (s : SendLoop) (n : NalRef) : Option SendLoop :=
  if s.ret = -1 then some s
  else
    match naluType n.head with
    | .sps => (c.decode n.bytes).map fun size => { s with out := s.out.keepSps n.bytes size }
    | .pps => some { s with out := s.out.keepPps n.bytes }
    | .idr =>
      (s.out.sendConfiguration c.heap).map fun out => SendLoop.sendUnit { s with out } c n.bytes true
    | .slice => some (s.sendUnit c n.bytes false)
    | _ => some s

/-- `_RTMP_H264SendPacket`. -/
def videoSendPacket (out : VideoOut) (c : Sending) : Option (Int × VideoOut) :=
  (nalLoop (videoNal c) c.data.length { out } (memOf c.data c.behind) c.data.length).map fun s =>
    (s.ret, s.out)

/-- The byte whose type is looked at before anything is sent. -/
def Sending.first (c : Sending) : UInt8 :=
  let data := memOf c.data c.behind
  match nalFindPos data c.data.length with
  | some p => data p.head
  | none => data 0

/-- `RTMPStreamOut_Send`. -/
def videoOutSend (out : VideoOut) (c : Sending) : Option (Int × VideoOut) :=
  if out.isopen = false then some (-1, out)
  else
    let out := if naluType c.first = .sps then { out with frameSpsExists := true } else out
    if out.frameSpsExists then videoSendPacket out c
    else some (if c.connected then 0 else -1, out)

/-! ## Time stamps -/

/-- The time stamp of a packet with a unit. -/
def RTMPPacket.unitStamp (p : RTMPPacket) : Option Nat :=
  if p.packetType = 0x09 ∧ p.body.getD 1 0 = 1 then some p.timeStamp else none

/-- The time stamps of the units that were sent. -/
def VideoOut.stamps (out : VideoOut) : List Nat := out.sent.filterMap RTMPPacket.unitStamp

/-- A slice, with which a unit is sent. -/
def IsCoded (n : NalRef) : Prop := naluType n.head = .idr ∨ naluType n.head = .slice

instance (n : NalRef) : Decidable (IsCoded n) := inferInstanceAs (Decidable (_ ∨ _))

/-- Of `m` units, the first of which is the `a`-th one of the call: those that arrive before one does
not. -/
def Sending.written (c : Sending) (a m : Nat) : Nat :=
  ((List.range' a m).takeWhile c.delivered).length

/-- And those that are tried. -/
def Sending.attempts (c : Sending) (a m : Nat) : Nat := min m (c.written a m + 1)

theorem written_succ_of_delivered {c : Sending} {a : Nat} (h : c.delivered a = true) (m : Nat) :
    c.written a (m + 1) = c.written (a + 1) m + 1 := by
  simp [Sending.written, List.range'_succ, h]

theorem written_succ_of_failed {c : Sending} {a : Nat} (h : c.delivered a = false) (m : Nat) :
    c.written a (m + 1) = 0 := by
  simp [Sending.written, List.range'_succ, h]

theorem attempts_succ_of_delivered {c : Sending} {a : Nat} (h : c.delivered a = true) (m : Nat) :
    c.attempts a (m + 1) = c.attempts (a + 1) m + 1 := by
  rw [Sending.attempts, Sending.attempts, written_succ_of_delivered h]
  omega

theorem attempts_succ_of_failed {c : Sending} {a : Nat} (h : c.delivered a = false) (m : Nat) :
    c.attempts a (m + 1) = 1 := by
  rw [Sending.attempts, written_succ_of_failed h]
  omega

/-- The configuration has no stamp. -/
theorem sendConfiguration_time {out out' : VideoOut} {heap : Flv.Mem}
    (h : out.sendConfiguration heap = some out') :
    out'.stamps = out.stamps ∧ out'.mdata.nTimeStamp = out.mdata.nTimeStamp ∧
      out'.isopen = out.isopen ∧ out'.frameSpsExists = out.frameSpsExists := by
  rw [VideoOut.sendConfiguration] at h
  split at h
  · obtain ⟨out₁, hheader, h⟩ := Option.bind_eq_some_iff.mp h
    obtain ⟨sps, -, hheader⟩ := Option.bind_eq_some_iff.mp hheader
    obtain ⟨body, hbody, rfl⟩ := Option.map_eq_some_iff.mp hheader
    cases h
    have hbody' : body.getD 1 0 = 0 := by
      rw [inArray] at hbody
      split at hbody
      · cases hbody
        rfl
      · cases hbody
    have hmeta (body : List UInt8) : RTMPPacket.unitStamp ⟨0x12, 0, body⟩ = none :=
      if_neg fun h => absurd (show (0x12 : UInt8) = 0x09 from h.1) (by decide)
    have hheader (time : Nat) : RTMPPacket.unitStamp ⟨0x09, time, body⟩ = none :=
      if_neg fun h => absurd (hbody'.symm.trans h.2) (by decide)
    refine ⟨?_, rfl, rfl, rfl⟩
    show ((out.sent ++ [_]) ++ [_]).filterMap RTMPPacket.unitStamp = out.stamps
    rw [List.filterMap_append, List.filterMap_append, List.filterMap_cons_none (hmeta _),
      List.filterMap_cons_none (hheader _)]
    simp [VideoOut.stamps]
  · cases h
    exact ⟨rfl, rfl, rfl, rfl⟩

/-- What sending a unit does. -/
theorem sendUnit_time (s : SendLoop) (c : Sending) (data : List UInt8) (bIsKeyFrame : Bool) :
    (s.sendUnit c data bIsKeyFrame).out.stamps =
      s.out.stamps ++
        if c.delivered s.attempts then [(s.out.mdata.nTimeStamp % 256 ^ 3).toNat] else [] := by
  have hunit : RTMPPacket.unitStamp ⟨0x09, (s.out.mdata.nTimeStamp % 256 ^ 3).toNat,
      packetBody (if bIsKeyFrame then 0x17 else 0x27) data⟩ =
        some (s.out.mdata.nTimeStamp % 256 ^ 3).toNat := if_pos ⟨rfl, rfl⟩
  show (if c.delivered s.attempts then s.out.sent ++ [_] else s.out.sent).filterMap _ = _
  split
  · rw [List.filterMap_append, List.filterMap_cons_some hunit]
    rfl
  · exact (List.append_nil _).symm

/-- What a turn does that is taken. -/
structure TurnTime (c : Sending) (coded : Bool) (s s' : SendLoop) : Prop where
  stamps : s'.out.stamps = s.out.stamps ++
    if coded && c.delivered s.attempts then [(s.out.mdata.nTimeStamp % 256 ^ 3).toNat] else []
  clock : s'.out.mdata.nTimeStamp = s.out.mdata.nTimeStamp + if coded then c.ms else 0
  attempts : s'.attempts = s.attempts + if coded then 1 else 0
  ret : s'.ret = if coded then (if c.delivered s.attempts then 0 else -1) else s.ret
  isopen : s'.out.isopen = s.out.isopen
  frameSpsExists : s'.out.frameSpsExists = s.out.frameSpsExists

theorem turnTime_sendUnit {c : Sending} (s : SendLoop) {out : VideoOut} (data : List UInt8)
    (bIsKeyFrame : Bool) (hstamps : out.stamps = s.out.stamps)
    (hclock : out.mdata.nTimeStamp = s.out.mdata.nTimeStamp) (hopen : out.isopen = s.out.isopen)
    (hsps : out.frameSpsExists = s.out.frameSpsExists) :
    TurnTime c true s (SendLoop.sendUnit { s with out } c data bIsKeyFrame) where
  stamps := by
    rw [sendUnit_time, ← hstamps, ← hclock, Bool.true_and]
  clock := by
    show out.mdata.nTimeStamp + c.ms = _
    rw [hclock, if_pos rfl]
  attempts := rfl
  ret := rfl
  isopen := hopen
  frameSpsExists := hsps

theorem turnTime_keep {c : Sending} {s : SendLoop} {out : VideoOut} (hsent : out.sent = s.out.sent)
    (hclock : out.mdata.nTimeStamp = s.out.mdata.nTimeStamp) (hopen : out.isopen = s.out.isopen)
    (hsps : out.frameSpsExists = s.out.frameSpsExists) : TurnTime c false s { s with out } where
  stamps := by
    show out.stamps = _
    rw [VideoOut.stamps, hsent]
    exact (List.append_nil _).symm
  clock := hclock.trans (Int.add_zero _).symm
  attempts := rfl
  ret := rfl
  isopen := hopen
  frameSpsExists := hsps

theorem videoNal_time {c : Sending} {s s' : SendLoop} {n : NalRef} (hret : s.ret ≠ -1)
    (h : videoNal c s n = some s') : TurnTime c (IsCoded n) s s' := by
  rw [videoNal, if_neg hret] at h
  split at h
  · next htype =>
    obtain ⟨size, -, rfl⟩ := Option.map_eq_some_iff.mp h
    rw [show decide (IsCoded n) = false from by simp [IsCoded, htype]]
    exact turnTime_keep rfl rfl rfl rfl
  · next htype =>
    cases h
    rw [show decide (IsCoded n) = false from by simp [IsCoded, htype]]
    exact turnTime_keep rfl rfl rfl rfl
  · next htype =>
    obtain ⟨out, hsend, rfl⟩ := Option.map_eq_some_iff.mp h
    obtain ⟨hstamps, hclock, hopen, hsps⟩ := sendConfiguration_time hsend
    rw [show decide (IsCoded n) = true from by simp [IsCoded, htype]]
    exact turnTime_sendUnit s n.bytes true hstamps hclock hopen hsps
  · next htype =>
    cases h
    rw [show decide (IsCoded n) = true from by simp [IsCoded, htype]]
    exact turnTime_sendUnit s n.bytes false rfl rfl rfl rfl
  · next hsps hpps hidr hslice =>
    cases h
    have htypes : naluType n.head ≠ .idr ∧ naluType n.head ≠ .slice := ⟨hidr, hslice⟩
    rw [show decide (IsCoded n) = false from by simp [IsCoded, htypes]]
    exact turnTime_keep rfl rfl rfl rfl

/-- After a unit that was not sent nothing happens any more. -/
theorem videoNals_stopped {c : Sending} {s : SendLoop} (hret : s.ret = -1) (ns : List NalRef) :
    ns.foldlM (videoNal c) s = some s := by
  induction ns with
  | nil => rfl
  | cons n ns ih =>
    rw [List.foldlM_cons, videoNal, if_pos hret]
    exact ih

/-- The turn of `m` units, the first of which is the `a`-th one of the call. -/
def Sending.turn (c : Sending) (a m : Nat) : Turn := ⟨c.ms, c.attempts a m, c.written a m⟩

/-- The stream after a turn. -/
structure Moved (t : Turn) (out out' : VideoOut) : Prop where
  stamps : out'.stamps = out.stamps ++
    (t.stamps out.mdata.nTimeStamp).map fun stamp => (stamp % 256 ^ 3).toNat
  clock : out'.mdata.nTimeStamp = t.after out.mdata.nTimeStamp
  isopen : out'.isopen = out.isopen
  frameSpsExists : out'.frameSpsExists = out.frameSpsExists

theorem moved_of_stamps {t : Turn} {out out' : VideoOut} (hwritten : t.written = 0)
    (hattempts : t.attempts = 0) (hstamps : out'.stamps = out.stamps)
    (hclock : out'.mdata.nTimeStamp = out.mdata.nTimeStamp) (hopen : out'.isopen = out.isopen)
    (hsps : out'.frameSpsExists = out.frameSpsExists) : Moved t out out' where
  stamps := by
    rw [hstamps, Turn.stamps, hwritten]
    exact (List.append_nil _).symm
  clock := by
    rw [hclock, Turn.after, hattempts]
    simp
  isopen := hopen
  frameSpsExists := hsps

/-- A unit with which nothing is sent, and what the others do. -/
theorem TurnTime.skip {c : Sending} {s s₁ : SendLoop} {out : VideoOut} {m : Nat}
    (h : TurnTime c false s s₁) (hmoved : Moved (c.turn s₁.attempts m) s₁.out out) :
    Moved (c.turn s.attempts m) s.out out := by
  have hstamps : s₁.out.stamps = s.out.stamps := h.stamps.trans (List.append_nil _)
  have hclock : s₁.out.mdata.nTimeStamp = s.out.mdata.nTimeStamp := h.clock.trans (Int.add_zero _)
  have hattempts : s₁.attempts = s.attempts := h.attempts
  rw [hattempts] at hmoved
  refine ⟨?_, ?_, hmoved.isopen.trans h.isopen, hmoved.frameSpsExists.trans h.frameSpsExists⟩
  · rw [hmoved.stamps, hstamps, hclock]
  · rw [hmoved.clock, hclock]

/-- A unit that arrives, and what the others do. -/
theorem TurnTime.delivered {c : Sending} {s s₁ : SendLoop} {out : VideoOut} {m : Nat}
    (h : TurnTime c true s s₁) (hdelivered : c.delivered s.attempts = true)
    (hmoved : Moved (c.turn s₁.attempts m) s₁.out out) :
    Moved (c.turn s.attempts (m + 1)) s.out out := by
  have hstamps := h.stamps
  rw [hdelivered, Bool.true_and, if_pos rfl] at hstamps
  have hclock : s₁.out.mdata.nTimeStamp = s.out.mdata.nTimeStamp + c.ms := h.clock
  have hattempts : s₁.attempts = s.attempts + 1 := h.attempts
  rw [hattempts] at hmoved
  rw [Sending.turn, written_succ_of_delivered hdelivered, attempts_succ_of_delivered hdelivered]
  refine ⟨?_, ?_, hmoved.isopen.trans h.isopen, hmoved.frameSpsExists.trans h.frameSpsExists⟩
  · rw [hmoved.stamps, hstamps, hclock, Sending.turn,
      stamps_succ c.ms _ _ (c.attempts (s.attempts + 1) _), List.append_assoc]
    rfl
  · rw [hmoved.clock, hclock]
    exact (after_succ c.ms _ _ _ _).symm

/-- A unit that does not arrive is the last one. -/
theorem TurnTime.failed {c : Sending} {s s₁ : SendLoop} (h : TurnTime c true s s₁)
    (hdelivered : c.delivered s.attempts = false) (m : Nat) :
    Moved (c.turn s.attempts (m + 1)) s.out s₁.out := by
  have hstamps := h.stamps
  rw [hdelivered, Bool.and_false, if_neg Bool.false_ne_true] at hstamps
  have hclock : s₁.out.mdata.nTimeStamp = s.out.mdata.nTimeStamp + c.ms := h.clock
  rw [Sending.turn, written_succ_of_failed hdelivered, attempts_succ_of_failed hdelivered]
  refine ⟨hstamps, ?_, h.isopen, h.frameSpsExists⟩
  show _ = s.out.mdata.nTimeStamp + ((1 : Nat) : Int) * c.ms
  rw [hclock, Int.natCast_one, Int.one_mul]

/-- The units of a buffer, one after the other. -/
theorem videoNals_time {c : Sending} {ns : List NalRef} {s s' : SendLoop} (hret : s.ret ≠ -1)
    (h : ns.foldlM (videoNal c) s = some s') :
    Moved (c.turn s.attempts (ns.countP (IsCoded ·))) s.out s'.out := by
  induction ns generalizing s with
  | nil =>
    cases h
    exact moved_of_stamps rfl rfl rfl rfl rfl rfl
  | cons n ns ih =>
    rw [List.foldlM_cons] at h
    obtain ⟨s₁, hstep, hrest⟩ := Option.bind_eq_some_iff.mp h
    have htime := videoNal_time hret hstep
    have hret₁ := htime.ret
    rw [List.countP_cons]
    by_cases hcoded : IsCoded n
    · rw [decide_eq_true hcoded] at htime hret₁ ⊢
      rw [if_pos rfl] at hret₁ ⊢
      cases hdelivered : c.delivered s.attempts with
      | true =>
        rw [hdelivered, if_pos rfl] at hret₁
        exact htime.delivered hdelivered (ih (by rw [hret₁]; decide) hrest)
      | false =>
        -- the call ends here
        rw [hdelivered, if_neg Bool.false_ne_true] at hret₁
        rw [videoNals_stopped hret₁, Option.some.injEq] at hrest
        subst hrest
        exact htime.failed hdelivered _
    · rw [decide_eq_false hcoded] at htime hret₁ ⊢
      rw [if_neg Bool.false_ne_true] at hret₁ ⊢
      exact htime.skip (ih (by rwa [hret₁]) hrest)

/-! ## Calls of the sender -/

/-- The units are looked at: the stream is open, and a sequence parameter set has come first. -/
def looks (mode : Bool × Bool) (c : Sending) : Bool :=
  mode.1 && (mode.2 || naluType c.first == .sps)

/-- The turn of a call. -/
def callTurn (mode : Bool × Bool) (c : Sending) : Turn :=
  if looks mode c then c.turn 0 (c.nals.countP (IsCoded ·)) else ⟨c.ms, 0, 0⟩

theorem videoSendPacket_time {c : Sending} {out out' : VideoOut} {ret : Int}
    (h : videoSendPacket out c = some (ret, out')) :
    Moved (c.turn 0 (c.nals.countP (IsCoded ·))) out out' := by
  rw [videoSendPacket, nalLoop_eq] at h
  obtain ⟨s, hloop, heq⟩ := Option.map_eq_some_iff.mp h
  cases heq
  have hret : (SendLoop.mk out 0 0).ret ≠ -1 := show (0 : Int) ≠ -1 by decide
  exact videoNals_time hret hloop

/-- Looking at the first unit. -/
theorem frameSpsExists_first {out : VideoOut} {c : Sending} (hopen : out.isopen = true) :
    (if naluType c.first = .sps then { out with frameSpsExists := true } else out) =
      { out with
        frameSpsExists := out.frameSpsExists || looks (out.isopen, out.frameSpsExists) c } := by
  obtain ⟨isopen, frameSpsExists, mdata, sent⟩ := out
  cases hopen
  by_cases htype : naluType c.first = .sps
  · simp [looks, htype]
  · have hother : (naluType c.first == .sps) = false := beq_eq_false_iff_ne.mpr htype
    simp [looks, htype, hother]

/-- What a call does. -/
theorem videoOutSend_time {c : Sending} {out out' : VideoOut} {ret : Int}
    (h : videoOutSend out c = some (ret, out')) :
    Moved (callTurn (out.isopen, out.frameSpsExists) c)
      { out with
        frameSpsExists := out.frameSpsExists || looks (out.isopen, out.frameSpsExists) c } out' := by
  rw [videoOutSend] at h
  split at h
  · next hopen =>
    cases h
    have hlooks : looks (out.isopen, out.frameSpsExists) c = false := by simp [looks, hopen]
    rw [callTurn, hlooks, if_neg Bool.false_ne_true, Bool.or_false]
    exact moved_of_stamps rfl rfl rfl rfl rfl rfl
  · next hopen =>
    rw [frameSpsExists_first (Bool.of_not_eq_false hopen)] at h
    have hsps : (out.frameSpsExists || looks (out.isopen, out.frameSpsExists) c) =
        looks (out.isopen, out.frameSpsExists) c := by
      rw [looks, Bool.of_not_eq_false hopen]
      cases out.frameSpsExists <;> rfl
    rw [callTurn]
    rw [hsps] at h ⊢
    generalize looks (out.isopen, out.frameSpsExists) c = looked at h ⊢
    cases looked with
    | true => exact videoSendPacket_time h
    | false =>
      have hkeep : some (_, { out with frameSpsExists := false }) = some (ret, out') := h
      cases hkeep
      exact moved_of_stamps rfl rfl rfl rfl rfl rfl

/-- A call without its result. -/
def videoStep (out : VideoOut) (c : Sending) : Option VideoOut := (videoOutSend out c).map Prod.snd

theorem videoStep_time {c : Sending} {out out' : VideoOut} (h : videoStep out c = some out') :
    Moved (callTurn (out.isopen, out.frameSpsExists) c)
      { out with
        frameSpsExists := out.frameSpsExists || looks (out.isopen, out.frameSpsExists) c } out' := by
  obtain ⟨⟨ret, out₁⟩, hsend, rfl⟩ := Option.map_eq_some_iff.mp h
  exact videoOutSend_time hsend

/-- `RTMPStreamOut_Send` as a sender; its mode is whether the stream is open, and whether a sequence
parameter set came first. -/
def videoSender : Sender VideoOut Sending (Bool × Bool) where
  step := videoStep
  ms c := c.ms
  stamps := VideoOut.stamps
  clock out := out.mdata.nTimeStamp
  mode out := (out.isopen, out.frameSpsExists)
  low := 256 ^ 3
  turn := callTurn
  next mode c := (mode.1, mode.2 || looks mode c)
  low_pos := by decide
  turn_ms mode c := by
    rw [callTurn]
    split <;> rfl
  stamps_step h := (videoStep_time h).stamps
  clock_step h := (videoStep_time h).clock
  mode_step h := Prod.ext (videoStep_time h).isopen (videoStep_time h).frameSpsExists

end ProgrammingPath.RtmpVideo
