import ProgrammingPath.Flv.Split
import ProgrammingPath.Lib.CString
import ProgrammingPath.Lib.FlvFile
import ProgrammingPath.Lib.Run
import ProgrammingPath.Rtmp.StreamOut
import Mathlib.Algebra.Group.Int.Defs

/-!
# Writing FLV

`flv_out.c`: the header of a file, and tags with the meta data, the sequence headers and the units of a
video stream. The bodies of the first two kinds are put together in arrays of 1024 bytes, without a test
of the lengths of the parameter sets. `none` is a call that goes wrong: it writes outside an array, or
reads from a NULL pointer.
-/

namespace ProgrammingPath.Flv

open ProgrammingPath.Lib ProgrammingPath.Rtmp

/-! ## The writer -/

/-- What `_write` is called with: by `flv_out_start` once, by `flv_out_tag` three times. -/
inductive Write
  | head (data : List UInt8)
  | tag (previousTagSize tagHeader tagData : List UInt8)
  deriving DecidableEq, Repr

def Write.bytes : Write → List UInt8
  | head data => data
  | tag previousTagSize tagHeader tagData => previousTagSize ++ (tagHeader ++ tagData)

/-- `media_data`, without the frame rate, which is only logged. The parameter sets are blocks on the
heap, or NULL pointers. -/
structure MediaData where
  width : Int
  height : Int
  status : Bool
  nTimeStamp : Int
  sps : Option (List UInt8)
  pps : Option (List UInt8)
  vps : Option (List UInt8)
  deriving DecidableEq, Repr

/-- `FlvOut`, with what was written. -/
structure FlvOut where
  previousTagSize : UInt32
  mdata : MediaData
  frameKeyExists : Bool
  writes : List Write
  deriving DecidableEq, Repr

/-- After `flv_out_build`. -/
def FlvOut.built : FlvOut := ⟨0, ⟨0, 0, false, 0, none, none, none⟩, false, []⟩

/-- All the bytes that were written. -/
def FlvOut.written (flv : FlvOut) : List UInt8 := flv.writes.flatMap Write.bytes

/-- `flv_out_tag`. -/
def flvOutTag (flv : FlvOut) (tagType : UInt8) (timestamp : Int) (tagData : List UInt8) : FlvOut :=
  let tagHeader := tagType :: (bigEndian 3 tagData.length ++
    (bigEndian 3 (timestamp % 256 ^ 3).toNat ++ [0, 0, 0, 0]))
  { flv with
    writes := flv.writes ++ [.tag (bigEndian 4 flv.previousTagSize.toNat) tagHeader tagData]
    previousTagSize := UInt32.ofNat (tagData.length + 11) }

/-- `flv_out_start`. -/
def flvOutStart (flv : FlvOut) : FlvOut :=
  { flv with writes := flv.writes ++ [.head (text "FLV" ++ ([0x01, 0x01] ++ bigEndian 4 9))] }

/-- A body in an array of 1024 bytes. -/
def inArray (body : List UInt8) : Option (List UInt8) := if body.length ≤ 1024 then some body else none

/-! ## Meta data -/

def putAmfString (str : String) : List UInt8 := bigEndian 2 (text str).length ++ text str

/-- The bits of an integer as a `double`. -/
def doubleBits (n : Int) : Nat :=
  if n = 0 then 0
  else
    let exponent := n.natAbs.log2
    (if n < 0 then 2 ^ 63 else 0) + (1023 + exponent) * 2 ^ 52 +
      (n.natAbs * 2 ^ (52 - exponent) - 2 ^ 52)

example : doubleBits 25 = 0x4039000000000000 := by decide

def putAmfDouble (n : Int) : List UInt8 := 0 :: bigEndian 8 (doubleBits n)

/-- The name that `flv_SendMetaData` gets, and the identifier that it writes for it. -/
inductive Codec
  | h264
  | h265
  deriving DecidableEq, Repr

def Codec.videocodecid : Codec → Int
  | h264 => 7
  | h265 => 12

def metaDataBody (width height : Int) (vcodename : Codec) : List UInt8 :=
  [[2], putAmfString "onMetaData", [8], bigEndian 4 8,
    putAmfString "duration", putAmfDouble 0,
    putAmfString "width", putAmfDouble width,
    putAmfString "height", putAmfDouble height,
    putAmfString "videodatarate", putAmfDouble 0,
    putAmfString "framerate", putAmfDouble 25,
    putAmfString "videocodecid", putAmfDouble vcodename.videocodecid,
    putAmfString "title", [2], putAmfString "Media Server",
    putAmfString "encoder", [2], putAmfString "Lavf56.40.101",
    putAmfString "", [9]].flatten

/-- `flv_SendMetaData`. -/
def flvSendMetaData (flv : FlvOut) (width height : Int) (vcodename : Codec) : Option FlvOut :=
  (inArray (metaDataBody width height vcodename)).map (flvOutTag flv 0x12 0)

/-! ## Sequence headers and units -/

/-- The bytes of a parameter set; a NULL pointer comes with the length 0. -/
def blockBytes (block : Option (List UInt8)) : List UInt8 := block.getD []

/-- The body that `flv_SendVideoSpsPps` puts together; of a short block it reads what is behind it on
the heap. -/
def spsPpsBody (heap : Mem) (sps pps : List UInt8) : List UInt8 :=
  [0x17, 0, 0, 0, 0, 0x01, memOf sps heap 1, memOf sps heap 2, memOf sps heap 3, 0xff, 0xe1] ++
    (bigEndian 2 sps.length ++ (sps ++ 0x01 :: (bigEndian 2 pps.length ++ pps)))

/-- `flv_SendVideoSpsPps`. -/
def flvSendVideoSpsPps (flv : FlvOut) (tm : Int) (heap : Mem) (sps pps : Option (List UInt8)) :
    Option FlvOut :=
  sps.bind fun sps => (inArray (spsPpsBody heap sps (blockBytes pps))).map (flvOutTag flv 0x09 tm)

/-- The body that `flv_SendVideoSpsPpsVps` puts together; it gives the picture parameter set one zero
byte more. -/
def spsPpsVpsBody (heap : Mem) (sps pps vps : List UInt8) : List UInt8 :=
  let sps' := memOf sps heap
  [0x1C, 0, 0, 0, 0, 0x01, sps' 3, sps' 4, sps' 5, sps' 6, 0, sps' 8, sps' 9, sps' 10, 0, 0, 0, sps' 17,
      0xF0, 0, 0xFC, 0xFD, 0xF8, 0xF8, 0, 0, 0x0F, 0x03] ++
    ([0x20, 0, 1] ++ (bigEndian 2 vps.length ++ (vps ++
    ([0x21, 0, 1] ++ (bigEndian 2 sps.length ++ (sps ++
    ([0x22, 0, 1] ++ (bigEndian 2 (pps.length + 1) ++ (pps ++ [0])))))))))

/-- `flv_SendVideoSpsPpsVps`. -/
def flvSendVideoSpsPpsVps (flv : FlvOut) (tm : Int) (heap : Mem) (pps sps vps : Option (List UInt8)) :
    Option FlvOut :=
  sps.bind fun sps =>
    (inArray (spsPpsVpsBody heap sps (blockBytes pps) (blockBytes vps))).map (flvOutTag flv 0x09 tm)

/-- The body of a tag with a unit. -/
def packetBody (frame : UInt8) (data : List UInt8) : List UInt8 :=
  [frame, 0x01, 0, 0, 0] ++ (bigEndian 4 data.length ++ data)

/-- `flv_SendPacketH264`. -/
def flvSendPacketH264 (flv : FlvOut) (data : List UInt8) (bIsKeyFrame : Bool) (nTimeStamp : Int) :
    FlvOut :=
  flvOutTag flv 0x09 nTimeStamp (packetBody (if bIsKeyFrame then 0x17 else 0x27) data)

/-- `flv_SendPacketH265`; its pointer is never NULL. -/
def flvSendPacketH265 (flv : FlvOut) (heap : Mem) (data : List UInt8) (bIsKeyFrame : Bool)
    (nTimeStamp : Int) : Option FlvOut :=
  let header := if bIsKeyFrame then
      flvSendVideoSpsPpsVps flv nTimeStamp heap flv.mdata.pps flv.mdata.sps flv.mdata.vps
    else some flv
  header.map fun flv =>
    flvOutTag flv 0x09 nTimeStamp (packetBody (if bIsKeyFrame then 0x1C else 0x2C) data)

/-! ## Units of a stream -/

/-- A buffer that is given to `flv_out_video_h264` or `flv_out_video_h265`, with what surrounds the call:
the memory behind the buffer, that behind the block of the sequence parameter set, and the decoder for
such sets. -/
structure Video where
  data : List UInt8
  ms : Int
  behind : Mem
  heap : Mem
  decode : DecodeSps

/-- A sequence parameter set is kept. `status` is cleared if width and height are known and both are
different. -/
def FlvOut.keepSps (flv : FlvOut) (nal : List UInt8) (size : Int × Int) : FlvOut :=
  let changed := flv.mdata.width ≠ 0 ∧ flv.mdata.height ≠ 0 ∧ flv.mdata.width ≠ size.1 ∧
    flv.mdata.height ≠ size.2
  { flv with
    mdata := { flv.mdata with
      status := if changed then false else flv.mdata.status
      width := size.1
      height := size.2
      sps := some nal } }

def FlvOut.keepPps (flv : FlvOut) (nal : List UInt8) : FlvOut :=
  { flv with mdata := { flv.mdata with pps := some nal } }

def FlvOut.keepVps (flv : FlvOut) (nal : List UInt8) : FlvOut :=
  { flv with mdata := { flv.mdata with vps := some nal } }

def FlvOut.setStatus (flv : FlvOut) (status : Bool) : FlvOut :=
  { flv with mdata := { flv.mdata with status := status } }

/-- `pmdata->nTimeStamp += ms`. -/
def FlvOut.addTime (flv : FlvOut) (ms : Int) : FlvOut :=
  { flv with mdata := { flv.mdata with nTimeStamp := flv.mdata.nTimeStamp + ms } }

/-- Meta data and sequence header, before an IDR slice of H.264. -/
def FlvOut.sendConfiguration (flv : FlvOut) (heap : Mem) : Option FlvOut :=
  if flv.mdata.status = false then do
    let flv ← flvSendMetaData flv flv.mdata.width flv.mdata.height .h264
    let flv ← flvSendVideoSpsPps flv 0 heap flv.mdata.sps flv.mdata.pps
    return flv.setStatus true
  else some flv

/-- A turn of the loop in `flv_out_video_h264`. -/
def h264Nal (v : Video) (flv : FlvOut) (n : NalRef) : Option FlvOut :=
  match naluType n.head with
  | .sps => (v.decode n.bytes).map (flv.keepSps n.bytes)
  | .pps => some (flv.keepPps n.bytes)
  | .idr =>
    (flv.sendConfiguration v.heap).map fun flv =>
      (flvSendPacketH264 { flv with frameKeyExists := true } n.bytes true
        flv.mdata.nTimeStamp).addTime v.ms
  | .slice =>
    if flv.frameKeyExists then
      some ((flvSendPacketH264 flv n.bytes false flv.mdata.nTimeStamp).addTime v.ms)
    else some flv
  | _ => some flv

/-- Meta data, before an IDR slice of H.265. -/
def FlvOut.sendHevcMetaData (flv : FlvOut) (iskey : Bool) : Option FlvOut :=
  if iskey ∧ flv.mdata.status = false then do
    let flv ← flvSendMetaData flv flv.mdata.width flv.mdata.height .h265
    return { flv.setStatus true with frameKeyExists := true }
  else some flv

/-- A slice of H.265. -/
def h265Slice (v : Video) (flv : FlvOut) (n : NalRef) (iskey : Bool) : Option FlvOut := do
  let flv ← flv.sendHevcMetaData iskey
  if flv.frameKeyExists then
    let flv ← flvSendPacketH265 flv v.heap n.bytes iskey flv.mdata.nTimeStamp
    return flv.addTime v.ms
  else some flv

/-- A turn of the loop in `flv_out_video_h265`. -/
def h265Nal (v : Video) (flv : FlvOut) (n : NalRef) : Option FlvOut :=
  match hevcType n.head with
  | .sps => (v.decode n.bytes).map (flv.keepSps n.bytes)
  | .pps => some (flv.keepPps n.bytes)
  | .vps => some (flv.keepVps n.bytes)
  | .idr => h265Slice v flv n true
  | .trailR => h265Slice v flv n false
  | _ => some flv

/-- `flv_out_video_h264`. -/
def flvOutVideoH264 (flv : FlvOut) (v : Video) : Option FlvOut :=
  nalLoop (h264Nal v) v.data.length flv (memOf v.data v.behind) v.data.length

/-- `flv_out_video_h265`. -/
def flvOutVideoH265 (flv : FlvOut) (v : Video) : Option FlvOut :=
  nalLoop (h265Nal v) v.data.length flv (memOf v.data v.behind) v.data.length

/-- `flv_out_clear`. -/
def flvOutClear (flv : FlvOut) : FlvOut := flv.setStatus false

/-! ## Runs -/

/-- A call on a handle. -/
inductive Call
  | h264 (v : Video)
  | h265 (v : Video)
  | clear

def callStep (flv : FlvOut) : Call → Option FlvOut
  | .h264 v => flvOutVideoH264 flv v
  | .h265 v => flvOutVideoH265 flv v
  | .clear => some (flvOutClear flv)

/-- What a call does, unit by unit. -/
inductive Act
  | h264 (v : Video) (n : NalRef)
  | h265 (v : Video) (n : NalRef)
  | clear

def unitStep (flv : FlvOut) : Act → Option FlvOut
  | .h264 v n => h264Nal v flv n
  | .h265 v n => h265Nal v flv n
  | .clear => some (flvOutClear flv)

/-- The units of a buffer, and of what is read behind it. -/
def Video.nals (v : Video) : List NalRef :=
  Flv.nals v.data.length (memOf v.data v.behind) v.data.length

def Call.acts : Call → List Act
  | .h264 v => v.nals.map (.h264 v)
  | .h265 v => v.nals.map (.h265 v)
  | .clear => [.clear]

theorem run_map {α : Type} (act : α → Act) (l : List α) (flv : FlvOut) :
    run unitStep flv (l.map act) = l.foldlM (fun flv a => unitStep flv (act a)) flv := by
  induction l generalizing flv with
  | nil => rfl
  | cons a l ih =>
    rw [List.map_cons, run_cons, List.foldlM_cons]
    exact congrArg _ (funext ih)

theorem callStep_eq (flv : FlvOut) (call : Call) : callStep flv call = run unitStep flv call.acts := by
  cases call with
  | h264 v =>
    rw [callStep, flvOutVideoH264, nalLoop_eq, Call.acts, run_map]
    rfl
  | h265 v =>
    rw [callStep, flvOutVideoH265, nalLoop_eq, Call.acts, run_map]
    rfl
  | clear => rfl

/-- The calls take the units one by one. -/
theorem run_callStep (flv : FlvOut) (calls : List Call) :
    run callStep flv calls = run unitStep flv (calls.flatMap Call.acts) := by
  induction calls generalizing flv with
  | nil => rfl
  | cons call calls ih =>
    rw [List.flatMap_cons, run_append, run_cons, callStep_eq]
    exact congrArg _ (funext ih)

end ProgrammingPath.Flv
