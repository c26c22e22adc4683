import ProgrammingPath.Flv.FlvOut
import ProgrammingPath.Rtmp.Configuration

/-!
# The file that is written

Every tag goes through `flv_out_tag`, which writes the size of the tag before it and remembers its own. So
whatever the calls are, the bytes are a file, as long as no sequence header is put together that does not
fit into its array, or from a NULL pointer.
-/

namespace ProgrammingPath.Flv

open ProgrammingPath.Lib ProgrammingPath.Rtmp

/-! ## One tag -/

/-- The tags that were written have bodies of less than 2^24 bytes. -/
def Small (flv : FlvOut) : Prop :=
  ∀ previousTagSize tagHeader tagData, .tag previousTagSize tagHeader tagData ∈ flv.writes →
    tagData.length < 256 ^ 3

/-- What was written is a file, and the size of its last tag is remembered. -/
def Framed (flv : FlvOut) : Prop :=
  ∃ tags, flv.written = flvFile 1 tags ∧ flv.previousTagSize.toNat = lastSize 0 tags

/-- The invariant. -/
def Inv (flv : FlvOut) : Prop := Small flv → Framed flv

theorem Inv.congr {flv flv' : FlvOut} (h : Inv flv) (hwrites : flv'.writes = flv.writes)
    (hsize : flv'.previousTagSize = flv.previousTagSize) : Inv flv' := by
  intro hsmall
  rw [Small, hwrites] at hsmall
  rw [Framed, FlvOut.written, hwrites, hsize]
  exact h hsmall

theorem inv_started : Inv (flvOutStart .built) := by
  intro _
  exact ⟨[], by decide +kernel, rfl⟩

/-- `flv_out_tag` keeps it. -/
theorem Inv.flvOutTag {flv : FlvOut} (h : Inv flv) (tagType : UInt8) (timestamp : Int)
    (tagData : List UInt8) : Inv (flvOutTag flv tagType timestamp tagData) := by
  intro hsmall
  have hbody : tagData.length < 256 ^ 3 :=
    hsmall _ _ _ (List.mem_append_right _ (List.mem_singleton_self _))
  obtain ⟨tags, hwritten, hsize⟩ :=
    h fun previousTagSize tagHeader data hmem =>
      hsmall previousTagSize tagHeader data (List.mem_append_left _ hmem)
  have htime : (timestamp % 256 ^ 3).toNat < 256 ^ 3 := by omega
  have hhigh : (timestamp % 256 ^ 3).toNat / 256 ^ 3 = 0 := Nat.div_eq_of_lt htime
  let t : FlvTag := ⟨tagType, (timestamp % 256 ^ 3).toNat, tagData, by omega, hbody⟩
  refine ⟨tags ++ [t], ?_, ?_⟩
  · have hheader : t.header = tagType :: (bigEndian 3 tagData.length ++
        (bigEndian 3 (timestamp % 256 ^ 3).toNat ++ [0, 0, 0, 0])) := by
      rw [FlvTag.header, hhigh]
      rfl
    rw [FlvOut.written, Flv.flvOutTag, List.flatMap_append, ← FlvOut.written, hwritten, flvFile, flvFile,
      tagChain_concat, ← hsize, hheader, List.append_assoc, List.flatMap_singleton]
    rfl
  · rw [lastSize_concat, Flv.flvOutTag, FlvTag.size]
    have hword : UInt32.size = 4294967296 := rfl
    show (UInt32.ofNat (tagData.length + 11)).toNat = 11 + tagData.length
    rw [UInt32.toNat_ofNat_of_lt' (by omega), Nat.add_comm]

/-! ## One unit -/

theorem Inv.inArray {flv flv' : FlvOut} (h : Inv flv) {tagType : UInt8} {timestamp : Int}
    {body : List UInt8} (hbody : (inArray body).map (Flv.flvOutTag flv tagType timestamp) = some flv') :
    Inv flv' := by
  obtain ⟨tagData, -, rfl⟩ := Option.map_eq_some_iff.mp hbody
  exact h.flvOutTag tagType timestamp tagData

theorem Inv.sendConfiguration {flv flv' : FlvOut} (h : Inv flv) {heap : Mem}
    (hsend : flv.sendConfiguration heap = some flv') : Inv flv' := by
  rw [FlvOut.sendConfiguration] at hsend
  split at hsend
  · obtain ⟨flv₁, hmeta, hsend⟩ := Option.bind_eq_some_iff.mp hsend
    obtain ⟨flv₂, hheader, hsend⟩ := Option.bind_eq_some_iff.mp hsend
    obtain ⟨sps, -, hheader⟩ := Option.bind_eq_some_iff.mp hheader
    cases hsend
    exact ((h.inArray hmeta).inArray hheader).congr rfl rfl
  · cases hsend
    exact h

theorem Inv.h264Nal {flv flv' : FlvOut} (h : Inv flv) {v : Video} {n : NalRef}
    (hstep : h264Nal v flv n = some flv') : Inv flv' := by
  rw [Flv.h264Nal] at hstep
  split at hstep
  · obtain ⟨size, -, rfl⟩ := Option.map_eq_some_iff.mp hstep
    exact h.congr rfl rfl
  · cases hstep
    exact h.congr rfl rfl
  · obtain ⟨flv₁, hsend, rfl⟩ := Option.map_eq_some_iff.mp hstep
    have hkey : Inv { flv₁ with frameKeyExists := true } := (h.sendConfiguration hsend).congr rfl rfl
    exact (hkey.flvOutTag _ _ _).congr rfl rfl
  · split at hstep
    · cases hstep
      exact (h.flvOutTag _ _ _).congr rfl rfl
    · cases hstep
      exact h
  · cases hstep
    exact h

theorem Inv.h265Slice {flv flv' : FlvOut} (h : Inv flv) {v : Video} {n : NalRef} {iskey : Bool}
    (hstep : h265Slice v flv n iskey = some flv') : Inv flv' := by
  obtain ⟨flv₁, hmeta, hstep⟩ := Option.bind_eq_some_iff.mp hstep
  have h₁ : Inv flv₁ := by
    rw [FlvOut.sendHevcMetaData] at hmeta
    split at hmeta
    · obtain ⟨flv₂, htag, hmeta⟩ := Option.bind_eq_some_iff.mp hmeta
      cases hmeta
      exact (h.inArray htag).congr rfl rfl
    · cases hmeta
      exact h
  split at hstep
  · obtain ⟨flv₂, hpacket, hstep⟩ := Option.bind_eq_some_iff.mp hstep
    cases hstep
    obtain ⟨flv₃, hheader, rfl⟩ := Option.map_eq_some_iff.mp hpacket
    have h₃ : Inv flv₃ := by
      split at hheader
      · obtain ⟨sps, -, hheader⟩ := Option.bind_eq_some_iff.mp hheader
        exact h₁.inArray hheader
      · cases hheader
        exact h₁
    exact (h₃.flvOutTag _ _ _).congr rfl rfl
  · cases hstep
    exact h₁

theorem Inv.h265Nal {flv flv' : FlvOut} (h : Inv flv) {v : Video} {n : NalRef}
    (hstep : h265Nal v flv n = some flv') : Inv flv' := by
  rw [Flv.h265Nal] at hstep
  split at hstep
  · obtain ⟨size, -, rfl⟩ := Option.map_eq_some_iff.mp hstep
    exact h.congr rfl rfl
  · cases hstep
    exact h.congr rfl rfl
  · cases hstep
    exact h.congr rfl rfl
  · exact h.h265Slice hstep
  · exact h.h265Slice hstep
  · cases hstep
    exact h

/-- One unit keeps the invariant, whatever it is. -/
theorem inv_unitStep {flv flv' : FlvOut} {act : Act} (h : Inv flv) (hstep : unitStep flv act = some flv') :
    Inv flv' := by
  cases act with
  | h264 v n => exact h.h264Nal hstep
  | h265 v n => exact h.h265Nal hstep
  | clear =>
    cases hstep
    exact h.congr rfl rfl

/-! ## When a unit goes through -/

/-- The sequence header that `flv_SendVideoSpsPps` is called for has a parameter set and fits. -/
def SpsPpsFits (m : MediaData) : Prop :=
  ∃ sps ∈ m.sps, 16 + sps.length + (blockBytes m.pps).length ≤ 1024

/-- That of `flv_SendVideoSpsPpsVps`. -/
def SpsPpsVpsFits (m : MediaData) : Prop :=
  ∃ sps ∈ m.sps, 44 + sps.length + (blockBytes m.pps).length + (blockBytes m.vps).length ≤ 1024

/-- The sequence header for a unit fits, if there is one, and the decoder stays inside its structure. -/
def HeaderFits (flv : FlvOut) : Act → Prop
  | .h264 v n =>
    (naluType n.head = .sps → (v.decode n.bytes).isSome) ∧
      (naluType n.head = .idr → flv.mdata.status = false → SpsPpsFits flv.mdata)
  | .h265 v n =>
    (hevcType n.head = .sps → (v.decode n.bytes).isSome) ∧
      (hevcType n.head = .idr → flv.mdata.status = false ∨ flv.frameKeyExists → SpsPpsVpsFits flv.mdata)
  | .clear => True

theorem inArray_isSome (body : List UInt8) : (inArray body).isSome ↔ body.length ≤ 1024 := by
  rw [Flv.inArray]
  split
  · next h => exact iff_of_true rfl h
  · next h => exact iff_of_false Bool.false_ne_true h

theorem length_putAmfString (str : String) : (putAmfString str).length = 2 + (text str).length := by
  rw [putAmfString, List.length_append, length_bigEndian]

theorem length_putAmfDouble (n : Int) : (putAmfDouble n).length = 9 := by
  rw [putAmfDouble, List.length_cons, length_bigEndian]

/-- The meta data always fits. -/
theorem length_metaDataBody (width height : Int) (vcodename : Codec) :
    (metaDataBody width height vcodename).length = 187 := by
  simp [metaDataBody, length_putAmfString, length_putAmfDouble, text]

theorem flvSendMetaData_eq (flv : FlvOut) (width height : Int) (vcodename : Codec) :
    flvSendMetaData flv width height vcodename =
      some (flvOutTag flv 0x12 0 (metaDataBody width height vcodename)) := by
  rw [flvSendMetaData, Flv.inArray, if_pos (by rw [length_metaDataBody]; decide)]
  rfl

theorem length_spsPpsBody (heap : Mem) (sps pps : List UInt8) :
    (spsPpsBody heap sps pps).length = 16 + sps.length + pps.length := by
  simp only [spsPpsBody, List.length_append, List.length_cons, List.length_nil, length_bigEndian]
  omega

theorem length_spsPpsVpsBody (heap : Mem) (sps pps vps : List UInt8) :
    (spsPpsVpsBody heap sps pps vps).length = 44 + sps.length + pps.length + vps.length := by
  simp only [spsPpsVpsBody, List.length_append, List.length_cons, List.length_nil, length_bigEndian]
  omega

theorem flvSendVideoSpsPps_isSome (flv : FlvOut) (tm : Int) (heap : Mem) (m : MediaData) :
    (flvSendVideoSpsPps flv tm heap m.sps m.pps).isSome ↔ SpsPpsFits m := by
  rw [flvSendVideoSpsPps, SpsPpsFits]
  cases m.sps with
  | none => simp
  | some sps => simp [inArray_isSome, length_spsPpsBody]

theorem flvSendVideoSpsPpsVps_isSome (flv : FlvOut) (tm : Int) (heap : Mem) (m : MediaData) :
    (flvSendVideoSpsPpsVps flv tm heap m.pps m.sps m.vps).isSome ↔ SpsPpsVpsFits m := by
  rw [flvSendVideoSpsPpsVps, SpsPpsVpsFits]
  cases m.sps with
  | none => simp
  | some sps => simp [inArray_isSome, length_spsPpsVpsBody]

theorem sendConfiguration_isSome (flv : FlvOut) (heap : Mem) :
    (flv.sendConfiguration heap).isSome ↔ (flv.mdata.status = false → SpsPpsFits flv.mdata) := by
  rw [FlvOut.sendConfiguration]
  split
  · next hstatus =>
    have hheader := flvSendVideoSpsPps_isSome (flvOutTag flv 0x12 0
      (metaDataBody flv.mdata.width flv.mdata.height .h264)) 0 heap flv.mdata
    simp only [flvSendMetaData_eq, Option.bind_eq_bind, Option.bind_some, hstatus, forall_const, ← hheader]
    show (Option.bind (flvSendVideoSpsPps _ 0 heap flv.mdata.sps flv.mdata.pps) _).isSome ↔ _
    cases flvSendVideoSpsPps _ 0 heap flv.mdata.sps flv.mdata.pps with
    | none => exact Iff.rfl
    | some flv' => exact iff_of_true rfl rfl
  · next hstatus => exact iff_of_true rfl fun h => absurd h hstatus

theorem flvSendPacketH265_isSome (flv : FlvOut) (heap : Mem) (data : List UInt8) (iskey : Bool)
    (nTimeStamp : Int) :
    (flvSendPacketH265 flv heap data iskey nTimeStamp).isSome ↔
      (iskey = true → SpsPpsVpsFits flv.mdata) := by
  cases iskey with
  | false => exact iff_of_true rfl fun h => absurd h Bool.false_ne_true
  | true =>
    rw [flvSendPacketH265, Option.isSome_map]
    exact (flvSendVideoSpsPpsVps_isSome flv nTimeStamp heap flv.mdata).trans ⟨fun h _ => h, fun h => h rfl⟩

/-- The meta data opens the gate, and changes nothing that the sequence header is made of. -/
theorem sendHevcMetaData_eq (flv : FlvOut) (iskey : Bool) :
    ∃ flv', flv.sendHevcMetaData iskey = some flv' ∧
      (SpsPpsVpsFits flv'.mdata ↔ SpsPpsVpsFits flv.mdata) ∧
      (flv'.frameKeyExists = true ↔ (iskey = true ∧ flv.mdata.status = false) ∨ flv.frameKeyExists = true)
      := by
  rw [FlvOut.sendHevcMetaData]
  split
  · next h =>
    rw [flvSendMetaData_eq, Option.bind_eq_bind, Option.bind_some]
    generalize metaDataBody flv.mdata.width flv.mdata.height .h265 = body
    exact ⟨_, rfl, Iff.rfl, iff_of_true rfl (.inl h)⟩
  · next h => exact ⟨flv, rfl, Iff.rfl, fun hkey => .inr hkey, fun hor => hor.resolve_left h⟩

theorem h265Slice_isSome (v : Video) (flv : FlvOut) (n : NalRef) (iskey : Bool) :
    (h265Slice v flv n iskey).isSome ↔
      (iskey = true → flv.mdata.status = false ∨ flv.frameKeyExists → SpsPpsVpsFits flv.mdata) := by
  obtain ⟨flv', hmeta, hfits, hgate⟩ := sendHevcMetaData_eq flv iskey
  rw [Flv.h265Slice, hmeta, Option.bind_eq_bind, Option.bind_some]
  split
  · next hopen =>
    have hpacket := flvSendPacketH265_isSome flv' v.heap n.bytes iskey flv'.mdata.nTimeStamp
    rw [hfits] at hpacket
    have hslice : ((flvSendPacketH265 flv' v.heap n.bytes iskey flv'.mdata.nTimeStamp).bind fun flv =>
        pure (flv.addTime v.ms)).isSome =
          (flvSendPacketH265 flv' v.heap n.bytes iskey flv'.mdata.nTimeStamp).isSome := by
      cases flvSendPacketH265 flv' v.heap n.bytes iskey flv'.mdata.nTimeStamp with
      | none => rfl
      | some flv'' => rfl
    rw [hslice, hpacket]
    exact ⟨fun h hkey _ => h hkey, fun h hkey => h hkey ((hgate.mp hopen).imp And.right id)⟩
  · next hopen =>
    exact iff_of_true rfl fun hkey hor => absurd (hgate.mpr (hor.imp (And.intro hkey) id)) hopen

/-- The condition is exact. -/
theorem unitStep_isSome (flv : FlvOut) (act : Act) : (unitStep flv act).isSome ↔ HeaderFits flv act := by
  cases act with
  | h264 v n =>
    rw [unitStep, Flv.h264Nal, HeaderFits]
    cases naluType n.head with
    | sps => simp
    | idr => simp [sendConfiguration_isSome]
    | slice =>
      cases hkey : flv.frameKeyExists <;> simp
    | _ => simp
  | h265 v n =>
    rw [unitStep, Flv.h265Nal, HeaderFits]
    cases hevcType n.head with
    | sps => simp
    | idr => simp [h265Slice_isSome]
    | trailR => simp [h265Slice_isSome]
    | _ => simp
  | clear => exact iff_of_true rfl trivial

/-! ## Whole runs -/

/-- **The bytes of every run of calls that goes through are a file**, and a run goes through if and only
if every sequence header in it fits. -/
theorem container_iff (calls : List Call) :
    (∃ flv, run callStep (flvOutStart .built) calls = some flv ∧
        (Small flv → ∃ tags, flv.written = flvFile 1 tags ∧ readFlv flv.written = some (1, tags))) ↔
      Meets unitStep HeaderFits (flvOutStart .built) (calls.flatMap Call.acts) := by
  rw [← run_isSome_iff unitStep_isSome, run_callStep]
  constructor
  · rintro ⟨flv, hrun, -⟩
    rw [hrun]
    rfl
  · intro hsome
    obtain ⟨flv, hrun⟩ := Option.isSome_iff_exists.mp hsome
    have hok := (run_isSome_iff unitStep_isSome _ _).mp hsome
    have hinv : Inv flv := run_invariant (fun _ _ _ h _ hstep => inv_unitStep h hstep) inv_started hok hrun
    refine ⟨flv, hrun, fun hsmall => ?_⟩
    obtain ⟨tags, hwritten, -⟩ := hinv hsmall
    refine ⟨tags, hwritten, ?_⟩
    rw [hwritten, readFlv_flvFile]

/-- A sequence parameter set of 1101 bytes. -/
def longSps : Nal where
  bytes := 0x67 :: List.replicate 1100 0xAA
  ne_nil := List.cons_ne_nil _ _
  no_code := by
    intro hin
    have hmem : (0 : UInt8) ∈ (0x67 :: List.replicate 1100 0xAA : List UInt8) :=
      hin.subset (List.mem_cons_self ..)
    rcases List.mem_cons.mp hmem with heq | hmem
    · exact absurd heq (by decide)
    · exact absurd (List.eq_of_mem_replicate hmem) (by decide)
  last_ne := by
    intro b hb
    have hmem := List.mem_of_getLast? hb
    rcases List.mem_cons.mp hmem with rfl | hmem
    · decide
    · rw [List.eq_of_mem_replicate hmem]
      decide

/-- A stream with the long parameter set, a short one, and a key frame. -/
def longStream : AnnexB := ⟨[⟨1, longSps⟩, ppsUnit, idrUnit], 0⟩

def longVideo : Video := ⟨longStream.bytes, 40, fun _ => 0, fun _ => 0, fun _ => some (640, 480)⟩

theorem nals_longVideo : longVideo.nals =
    [⟨0x67, longSps.bytes⟩, ⟨0x68, [0x68]⟩, ⟨0x65, [0x65]⟩] := by
  have hnals := nals_annexB longStream (by rintro u ⟨⟩; decide) fun _ => 0
  show Flv.nals longStream.bytes.length (memOf longStream.bytes fun _ => 0) longStream.bytes.length = _
  rw [hnals]
  show [NalRef.mk 0x67 (longSps.bytes ++ []), ⟨0x68, [0x68]⟩, ⟨0x65, [0x65]⟩] = _
  rw [List.append_nil]

/-- The sequence header for the long parameter set is written over the end of its array. -/
theorem long_header_overflows :
    run callStep (flvOutStart .built) [.h264 longVideo] = none ∧
    ¬∃ flv, run callStep (flvOutStart .built) [.h264 longVideo] = some flv ∧
        (Small flv → ∃ tags, flv.written = flvFile 1 tags ∧ readFlv flv.written = some (1, tags)) := by
  have hnone : run callStep (flvOutStart .built) [.h264 longVideo] = none := by
    have hacts : [Call.h264 longVideo].flatMap Call.acts = [.h264 longVideo ⟨0x67, longSps.bytes⟩,
        .h264 longVideo ⟨0x68, [0x68]⟩, .h264 longVideo ⟨0x65, [0x65]⟩] := by
      rw [List.flatMap_singleton, Call.acts, nals_longVideo]
      rfl
    rw [run_callStep, hacts, ← Option.isNone_iff_eq_none]
    decide +kernel
  refine ⟨hnone, ?_⟩
  rintro ⟨flv, hrun, -⟩
  rw [hnone] at hrun
  cases hrun

end ProgrammingPath.Flv
