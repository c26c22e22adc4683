import ProgrammingPath.Rtmp.Nalu
import Mathlib.Data.List.Forall2

/-!
# Sending NAL units over RTMP

`RTMPStreamOut_Send` and `RTMPStreamOut_SendH265` in `rtmp_h264.c`: a buffer is split into units, and
each is given to a function that keeps the parameter sets and sends the slices. Both functions look for
the start code again and compute the length of the unit from it, the one for H.264 one byte too much.
-/

namespace ProgrammingPath.Rtmp

open ProgrammingPath.Lib

/-! ## The stream -/

/-- What is handed to `RTMP_H264SendPacket` or `RTMP_SendH265Packet`: a pointer, with the memory from
it on, and a size. -/
structure Payload where
  ptr : List UInt8
  size : Nat
  deriving DecidableEq, Repr

/-- What is sent on a connection. -/
inductive Packet
  | metaData (codeId : Nat) (width height fps : Int)
  | avcHeader (timestamp : Int) (body : List UInt8)
  | hevcHeader (timestamp : Int) (vps sps pps : List UInt8)
  | nalu (payload : Payload) (isKeyFrame : Bool) (timestamp : Int)
  deriving DecidableEq, Repr

/-- One of the arrays `sps`, `pps` and `vps` of `media_data`, and its length field. -/
structure ParamSet where
  bytes : List UInt8
  len : Nat
  deriving DecidableEq, Repr

/-- `media_data`. -/
structure MediaData where
  width : Int
  height : Int
  fps : Int
  status : Bool
  nTimeStamp : Int
  vps : ParamSet
  pps : ParamSet
  sps : ParamSet
  deriving DecidableEq, Repr

/-- `RTMPStreamOut`; `sent` is what was sent since the connection was opened. -/
structure StreamOut where
  isopen : Bool
  frameSpsExists : Bool
  mdata : MediaData
  sent : List Packet
  deriving DecidableEq, Repr

/-- An empty array. -/
def ParamSet.init : ParamSet := ⟨List.replicate 100 0, 0⟩

/-- After `RTMPStreamOut_open`; the size of the picture may have been set before. -/
def StreamOut.opened (width height fps : Int) : StreamOut :=
  ⟨true, false, ⟨width, height, fps, false, 0, .init, .init, .init⟩, []⟩

/-- `memcpy` of a unit into an array of a hundred bytes: of one that is longer, 99 bytes. -/
def ParamSet.copy (set : ParamSet) (ptr : List UInt8) (nalLen : Nat) : ParamSet :=
  let len := if 100 < nalLen then 99 else nalLen
  ⟨ptr.take len ++ set.bytes.drop (ptr.take len).length, len⟩

/-- What the first `len` bytes of an array are. -/
def ParamSet.text (set : ParamSet) : List UInt8 := set.bytes.take set.len

def be16 (n : Nat) : List UInt8 := [UInt8.ofNat (n / 256), UInt8.ofNat n]

/-- The body that `RTMP_SendVideoSpsPps` sends. -/
def avcSequenceHeader (sps pps : ParamSet) : List UInt8 :=
  [0x17, 0, 0, 0, 0, 0x01, sps.bytes.getD 1 0, sps.bytes.getD 2 0, sps.bytes.getD 3 0, 0xff, 0xe1] ++
    (be16 sps.len ++ (sps.text ++ 0x01 :: (be16 pps.len ++ pps.text)))

/-! ## H.264 -/

/-- The types of NAL units that `H264.h` names and the sender distinguishes. -/
inductive NaluType
  | slice
  | dpa
  | dpb
  | dpc
  | idr
  | sei
  | sps
  | pps
  | aud
  | other
  deriving DecidableEq, Repr

def naluType (head : UInt8) : NaluType :=
  match head &&& 0x1F with
  | 1 => .slice
  | 2 => .dpa
  | 3 => .dpb
  | 4 => .dpc
  | 5 => .idr
  | 6 => .sei
  | 7 => .sps
  | 8 => .pps
  | 9 => .aud
  | _ => .other

/-- `h264_decode_sps_t` and `h265_decode_sps_t`: the width and the height; `none` when a parameter set
makes them write outside their structure. -/
abbrev DecodeSps := List UInt8 → Option (Int × Int)

/-- A unit is given to the packet sender. -/
def StreamOut.sendNalu (out : StreamOut) (ptr : List UInt8) (size : Nat) (isKeyFrame : Bool)
    (ms : Int) : StreamOut :=
  { out with
    sent := out.sent ++ [.nalu ⟨ptr, size⟩ isKeyFrame out.mdata.nTimeStamp]
    mdata := { out.mdata with nTimeStamp := out.mdata.nTimeStamp + ms } }

/-- Meta data and sequence header, before the first key frame. -/
def StreamOut.sendConfiguration (out : StreamOut) : StreamOut :=
  if out.mdata.status = false ∧ out.mdata.sps.len ≠ 0 ∧ out.mdata.pps.len ≠ 0 then
    { out with
      sent := out.sent ++ [.metaData 7 out.mdata.width out.mdata.height out.mdata.fps,
        .avcHeader 0 (avcSequenceHeader out.mdata.sps out.mdata.pps)]
      mdata := { out.mdata with status := true } }
  else out

/-- A sequence parameter set is kept; the size of the picture is taken from it unless it is known. -/
def StreamOut.keepSps (out : StreamOut) (nal : List UInt8) (nalLen : Nat) (size : Int × Int) :
    StreamOut :=
  let mdata := { out.mdata with sps := out.mdata.sps.copy nal nalLen }
  if mdata.width = 0 ∨ mdata.height = 0 then
    { out with mdata := { mdata with width := size.1, height := size.2, fps := 0 } }
  else { out with mdata := mdata }

def StreamOut.keepPps (out : StreamOut) (nal : List UInt8) (nalLen : Nat) : StreamOut :=
  { out with mdata := { out.mdata with pps := out.mdata.pps.copy nal nalLen } }

/-- `_RTMP_H264SendPacket` behind the start code: `nal` is the memory from the unit on. -/
def h264SendNal (decode : DecodeSps) (ms : Int) (out : StreamOut) (nal : List UInt8) (nalLen : Nat) :
    Option StreamOut :=
  match naluType (nal.headD 0) with
  | .sps => (decode (nal.take nalLen)).map (out.keepSps nal nalLen)
  | .pps => some (out.keepPps nal nalLen)
  | .idr => some (out.sendConfiguration.sendNalu nal nalLen true ms)
  | .slice => some (out.sendNalu nal nalLen false ms)
  | _ => some out

/-- `_RTMP_H264SendPacket`. -/
def h264SendPacket (decode : DecodeSps) (ms : Int) (out : StreamOut) (data : List UInt8) (size : Nat) :
    Option StreamOut :=
  match naluFind data size with
  | none => some out
  | some (nalHeadPos, _) => h264SendNal decode ms out (data.drop nalHeadPos) (size - nalHeadPos + 1)

/-- A turn of the loop in `RTMPStreamOut_Send`; `none` is also the `exit` of a unit that ends before it
begins. -/
def h264Turn (decode : DecodeSps) (ms : Int) (out : StreamOut) (start : List UInt8) (u : AccessUnit) :
    Option StreamOut :=
  let type := naluType ((start.drop u.naluPos).headD 0)
  let out := if type = .sps ∨ type = .pps then { out with frameSpsExists := true } else out
  if u.posEnd < u.posStart then none
  else if out.frameSpsExists then
    h264SendPacket decode ms out (start.drop u.posStart) (u.posEnd - u.posStart)
  else some out

/-- `RTMPStreamOut_Send`. -/
def rtmpStreamOutSend (decode : DecodeSps) (out : StreamOut) (data : List UInt8) (size : Nat)
    (ms : Int) : Option StreamOut :=
  if out.isopen then unitLoop (h264Turn decode ms) size out data size else some out

/-! ## H.265 -/

/-- The types of NAL units that `H264.h` names for H.265 and the sender distinguishes. -/
inductive HevcType
  | trailN
  | trailR
  | tsaN
  | tla
  | stsaN
  | stsaR
  | radlN
  | dlp
  | raslN
  | tfd
  | bla
  | blant
  | blaNLp
  | idr
  | idrNLp
  | cra
  | vps
  | sps
  | pps
  | sei
  | other
  deriving DecidableEq, Repr

def hevcType (head : UInt8) : HevcType :=
  match (head &&& 0x7E) >>> 1 with
  | 0 => .trailN
  | 1 => .trailR
  | 2 => .tsaN
  | 3 => .tla
  | 4 => .stsaN
  | 5 => .stsaR
  | 6 => .radlN
  | 7 => .dlp
  | 8 => .raslN
  | 9 => .tfd
  | 16 => .bla
  | 17 => .blant
  | 18 => .blaNLp
  | 19 => .idr
  | 20 => .idrNLp
  | 21 => .cra
  | 32 => .vps
  | 33 => .sps
  | 34 => .pps
  | 39 => .sei
  | _ => .other

/-- The sequence header that `RTMP_SendH265Packet` sends before a key frame. -/
def StreamOut.sendHevcHeader (out : StreamOut) : StreamOut :=
  { out with
    sent := out.sent ++ [.hevcHeader out.mdata.nTimeStamp out.mdata.vps.text out.mdata.sps.text
      out.mdata.pps.text] }

/-- Meta data before the first key frame. -/
def StreamOut.sendHevcMetaData (out : StreamOut) : StreamOut :=
  if out.mdata.status = false then
    { out with
      sent := out.sent ++ [.metaData 12 out.mdata.width out.mdata.height out.mdata.fps]
      mdata := { out.mdata with status := true } }
  else out

/-- A sequence parameter set is kept, and the size of the picture is taken from it. -/
def StreamOut.keepHevcSps (out : StreamOut) (nal : List UInt8) (nalLen : Nat) (size : Int × Int) :
    StreamOut :=
  { out with
    mdata := { out.mdata with
      sps := out.mdata.sps.copy nal nalLen
      width := size.1
      height := size.2 } }

def StreamOut.keepVps (out : StreamOut) (nal : List UInt8) (nalLen : Nat) : StreamOut :=
  { out with mdata := { out.mdata with vps := out.mdata.vps.copy nal nalLen } }

/-- `_RTMP_H265SendPacket` behind the start code. -/
def h265SendNal (decode : DecodeSps) (ms : Int) (out : StreamOut) (nal : List UInt8) (nalLen : Nat) :
    Option StreamOut :=
  match hevcType (nal.headD 0) with
  | .sps => (decode (nal.take nalLen)).map (out.keepHevcSps nal nalLen)
  | .pps => some (out.keepPps nal nalLen)
  | .vps => some (out.keepVps nal nalLen)
  | .idr | .idrNLp => some (out.sendHevcMetaData.sendHevcHeader.sendNalu nal nalLen true ms)
  | .trailR | .bla | .blaNLp => some (out.sendNalu nal nalLen false ms)
  | _ => some out

/-- `_RTMP_H265SendPacket`. -/
def h265SendPacket (decode : DecodeSps) (ms : Int) (out : StreamOut) (data : List UInt8) (size : Nat) :
    Option StreamOut :=
  match naluFind data size with
  | none => some out
  | some (nalHeadPos, leading) => h265SendNal decode ms out (data.drop nalHeadPos) (size - leading)

/-- A turn of the loop in `RTMPStreamOut_SendH265`. -/
def h265Turn (decode : DecodeSps) (ms : Int) (out : StreamOut) (start : List UInt8) (u : AccessUnit) :
    Option StreamOut :=
  let out := if hevcType ((start.drop u.naluPos).headD 0) = .vps then { out with frameSpsExists := true }
    else out
  if u.posEnd < u.posStart then none
  else if out.frameSpsExists then
    h265SendPacket decode ms out (start.drop u.posStart) (u.posEnd - u.posStart)
  else some out

/-- `RTMPStreamOut_SendH265`. -/
def rtmpStreamOutSendH265 (decode : DecodeSps) (out : StreamOut) (data : List UInt8) (size : Nat)
    (ms : Int) : Option StreamOut :=
  if out.isopen then unitLoop (h265Turn decode ms) size out data size else some out

end ProgrammingPath.Rtmp
