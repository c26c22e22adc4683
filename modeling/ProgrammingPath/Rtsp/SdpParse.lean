import ProgrammingPath.Rtsp.Base64
import ProgrammingPath.Rtsp.Number
import ProgrammingPath.Rtsp.SpsDecode

/-!
# `sdp_parse`

The description of a session is read line by line into an array of 200 bytes, and what the lines of the video section
say goes to the fields of `struct SDPInfo`. `safe_iff` says for which texts this comes to its end and stays in the
array and the fields.
-/

namespace ProgrammingPath.Rtsp

open ProgrammingPath.Lib

/-! ## What `sscanf` reads -/

/-- What is behind the number that `scanInt` reads. -/
def afterInt (str : List UInt8) : List UInt8 :=
  let str := str.dropWhile isSpace
  let str := if str.head? = some 45 ∨ str.head? = some 43 then str.drop 1 else str
  str.dropWhile isDigit

/-- `%d`: the number as a `long`, of which the low half is taken, and what is behind it. -/
def scanD (str : List UInt8) : Option (Int × List UInt8) :=
  (scanInt str).map fun v =>
    (Int.bmod (max (-9223372036854775808) (min v 9223372036854775807)) 4294967296, afterInt str)

/-- `%s`. -/
def word (str : List UInt8) : List UInt8 := (str.dropWhile isSpace).takeWhile (!isSpace ·)

/-- ` %[^/]`. -/
def beforeSlash (str : List UInt8) : List UInt8 := (str.dropWhile isSpace).takeWhile (· != 47)

/-- What is behind `%*[^:]:`. -/
def afterColon (line : List UInt8) : List UInt8 := (line.dropWhile (· != 58)).drop 1

/-! ## The fields -/

/-- A `char` array of so many bytes with a string in it. -/
def Field (n : Nat) : Type := { s : List UInt8 // s.length < n }

/-- A string is written with a NUL behind it: `none` when it does not fit. -/
def Field.put (n : Nat) (s : List UInt8) : Option (Field n) := if h : s.length < n then some ⟨s, h⟩ else none

/-- `struct SDPInfo`, without the size of the picture. -/
structure SDPInfo where
  mediaVideoPort : Int
  mediaVideoProto : Field 10
  mediaVideoFormat : Int
  mediaVideoAttrRtpmapFormat : Int
  mediaVideoAttrRtpmapType : Field 10
  mediaVideoAttrRtpmapRate : Int
  mediaVideoAttrFramerate : Int
  mediaVideoAttrControl : Field 20

/-- What `memset` leaves. -/
def SDPInfo.zero : SDPInfo := ⟨0, ⟨[], by decide⟩, 0, 0, ⟨[], by decide⟩, 0, 0, ⟨[], by decide⟩⟩

/-! ## The lines -/

/-- The size of `linestr`. -/
def linestrSize : Nat := 200

def inLine (b : UInt8) : Bool := b != 0 && b != 10 && b != 13

/-- `string_readline`: the line and where the next one begins; `none` when the line does not fit. -/
def stringReadline (str : List UInt8) : Option (List UInt8 × List UInt8) :=
  let line := str.takeWhile inLine
  if line.length < linestrSize then
    match str.drop line.length with
    | 13 :: 10 :: rest => some (line, rest)
    | 10 :: rest => some (line, rest)
    | rest => some (line, rest)
  else none

/-- `sscanf(linestr, "%*[^ ]%d %s %d", …)`. -/
def scanMedia (line : List UInt8) (info : SDPInfo) : Option SDPInfo :=
  match scanD (line.dropWhile (· != 32)) with
  | none => some info
  | some (mediaVideoPort, rest) =>
    let info := { info with mediaVideoPort }
    if word rest = [] then some info
    else do
      let mediaVideoProto ← Field.put 10 (word rest)
      let info := { info with mediaVideoProto }
      match scanD ((rest.dropWhile isSpace).drop (word rest).length) with
      | none => some info
      | some (mediaVideoFormat, _) => some { info with mediaVideoFormat }

/-- `sscanf(linestr, "%*[^:]:%d", …)`. -/
def scanFramerate (line : List UInt8) (info : SDPInfo) : SDPInfo :=
  match scanD (afterColon line) with
  | none => info
  | some (mediaVideoAttrFramerate, _) => { info with mediaVideoAttrFramerate }

/-- `sscanf(linestr, "%*[^:]:%s", …)`. -/
def scanControl (line : List UInt8) (info : SDPInfo) : Option SDPInfo :=
  if word (afterColon line) = [] then some info
  else (Field.put 20 (word (afterColon line))).map fun mediaVideoAttrControl => { info with mediaVideoAttrControl }

/-- `sscanf(linestr, "%*[^:]:%d %[^/]/%d", …)`. -/
def scanRtpmap (line : List UInt8) (info : SDPInfo) : Option SDPInfo :=
  match scanD (afterColon line) with
  | none => some info
  | some (mediaVideoAttrRtpmapFormat, rest) =>
    let info := { info with mediaVideoAttrRtpmapFormat }
    if beforeSlash rest = [] then some info
    else do
      let mediaVideoAttrRtpmapType ← Field.put 10 (beforeSlash rest)
      let info := { info with mediaVideoAttrRtpmapType }
      match (rest.dropWhile isSpace).drop (beforeSlash rest).length with
      | 47 :: rest =>
        match scanD rest with
        | none => some info
        | some (mediaVideoAttrRtpmapRate, _) => some { info with mediaVideoAttrRtpmapRate }
      | _ => some info

/-- `h264_decode_sps` of the bytes in an array of so many, behind the end of which nothing may be read. -/
def decodeSpsIn (size : Nat) (out : Mem) (outlen : Nat) : Option Unit :=
  let off : Int := buffRtcpRtpSize - size
  (h264DecodeSps (fun i => out (i - off)) off outlen).map fun _ => ()

/-- A parameter set in base64, decoded into an array on the stack with `before` in it. -/
def decodeSprop (before : Mem) (str : List UInt8) : Option Unit := do
  let (out, outlen) ← base64Decode str before
  decodeSpsIn (base64DecodeOutSize str.length) out outlen

/-- The value of `sprop-parameter-sets` if this is the parameter. -/
def spropValue (param : List UInt8) : Option (List UInt8) :=
  let ptr := param.dropWhile (· == 32)
  if startsCI (text "sprop-parameter-sets") ptr = true then
    some ((ptr.drop (text "sprop-parameter-sets").length).dropWhile fun b => b == 32 || b == 61)
  else none

/-- The loop over what `strtok_r` cuts out. -/
def fmtpLoop (before : Mem) : List (List UInt8) → Option Unit
  | [] => some ()
  | param :: params => do
    match spropValue param with
    | none => fmtpLoop before params
    | some str =>
      decodeSprop before str
      fmtpLoop before params

/-- The parameters between semicolons, of which none is empty. -/
def strtok (line : List UInt8) : List (List UInt8) := (line.splitOn 59).filter (· ≠ [])

/-- The lines of the video section. -/
def parseAttr (before : Mem) (line : List UInt8) (info : SDPInfo) : Option SDPInfo :=
  let info := if startsCI (text "a=framerate:") line = true then scanFramerate line info else info
  (if startsCI (text "a=control:") line = true then scanControl line info else some info).bind fun info =>
  (if startsCI (text "a=rtpmap:") line = true then scanRtpmap line info else some info).bind fun info =>
  (if startsCI (text "a=fmtp:") line = true then fmtpLoop before (strtok line) else some ()).map fun _ => info

/-- The variables of the loop. -/
structure SdpState where
  mediaDesc : Nat
  mediaVideo : Int
  info : SDPInfo

/-- `media_desc`, which counts the sections. -/
def SdpState.nextDesc (st : SdpState) (line : List UInt8) : Nat :=
  if startsCI (text "m=") line = true then st.mediaDesc + 1 else st.mediaDesc

/-- One line. -/
def parseLine (before : Mem) (line : List UInt8) (st : SdpState) : Option SdpState :=
  let mediaDesc := st.nextDesc line
  if startsCI (text "m=video ") line = true then
    (scanMedia line st.info).map fun info => ⟨mediaDesc, mediaDesc, info⟩
  else if (mediaDesc : Int) ≠ st.mediaVideo then some { st with mediaDesc }
  else (parseAttr before line st.info).map fun info => ⟨mediaDesc, st.mediaVideo, info⟩

/-- The loop of `sdp_parse`; `fuel` bounds the number of lines. -/
def sdpLoop (before : Mem) : Nat → List UInt8 → SdpState → Option SDPInfo
  | 0, _, _ => none
  | fuel + 1, str, st =>
    if str.headD 0 = 0 then some st.info
    else do
      let (line, rest) ← stringReadline str
      let st ← parseLine before line st
      sdpLoop before fuel rest st

/-- `sdp_parse`. -/
def sdpParse (before : Mem) (fuel : Nat) (str : List UInt8) (info : SDPInfo) : Option SDPInfo :=
  sdpLoop before fuel str ⟨0, -1, info⟩

/-! ## Texts that are read safely -/

/-- A carriage return with no line feed behind it. -/
def LoneCr (str : List UInt8) : Prop := ∃ front back, str = front ++ 13 :: back ∧ back.head? ≠ some 10

/-- The lines of a text. -/
def linesOf : List UInt8 → List (List UInt8)
  | [] => []
  | 10 :: rest => [] :: linesOf rest
  | 13 :: 10 :: rest => [] :: linesOf rest
  | b :: rest =>
    match linesOf rest with
    | [] => [[b]]
    | line :: lines => (b :: line) :: lines

/-- The protocol fits. -/
def MediaFits (line : List UInt8) : Prop :=
  ∀ port rest, scanD (line.dropWhile (· != 32)) = some (port, rest) → (word rest).length < 10

def ControlFits (line : List UInt8) : Prop := (word (afterColon line)).length < 20

/-- The type fits. -/
def RtpmapFits (line : List UInt8) : Prop :=
  ∀ format rest, scanD (afterColon line) = some (format, rest) → (beforeSlash rest).length < 10

/-- No character that counts is behind the last whole four, and the parameter set comes to its end in the array. -/
def SpropFits (before : Mem) (str : List UInt8) : Prop :=
  base64Length str ≤ str.length / 4 * 4 ∧
    ∀ out outlen, base64Decode str before = some (out, outlen) →
      (decodeSpsIn (base64DecodeOutSize str.length) out outlen).isSome = true

def FmtpFits (before : Mem) (line : List UInt8) : Prop :=
  ∀ param ∈ strtok line, ∀ str ∈ spropValue param, SpropFits before str

/-- What a line of the video section says fits. -/
structure AttrFits (before : Mem) (line : List UInt8) : Prop where
  control : startsCI (text "a=control:") line = true → ControlFits line
  rtpmap : startsCI (text "a=rtpmap:") line = true → RtpmapFits line
  fmtp : startsCI (text "a=fmtp:") line = true → FmtpFits before line

/-- Whether the video section goes on behind a line. -/
def sectionAfter (inVideo : Bool) (line : List UInt8) : Bool :=
  if startsCI (text "m=video ") line = true then true
  else if startsCI (text "m=") line = true then false
  else inVideo

/-- A line fits, in the video section or outside. -/
structure LineFits (before : Mem) (inVideo : Bool) (line : List UInt8) : Prop where
  length : line.length < linestrSize
  media : startsCI (text "m=video ") line = true → MediaFits line
  attr : startsCI (text "m=video ") line = false → sectionAfter inVideo line = true → AttrFits before line

def LinesFit (before : Mem) : Bool → List (List UInt8) → Prop
  | _, [] => True
  | inVideo, line :: lines => LineFits before inVideo line ∧ LinesFit before (sectionAfter inVideo line) lines

section

variable {before : Mem} {line rest str : List UInt8} {info : SDPInfo} {n : Nat}

/-! ## When a line is parsed -/

theorem isSome_bind_iff {α β : Type} {o : Option α} {f : α → Option β} {Q : Prop}
    (h : ∀ a, (f a).isSome = true ↔ Q) : (o.bind f).isSome = true ↔ o.isSome = true ∧ Q := by
  cases o with
  | none => exact iff_of_false Bool.false_ne_true fun h => absurd h.1 Bool.false_ne_true
  | some a => exact (h a).trans ⟨fun hq => ⟨rfl, hq⟩, fun hq => hq.2⟩

theorem put_isSome_iff {s : List UInt8} : (Field.put n s).isSome = true ↔ s.length < n := by
  rw [Field.put]
  split
  · next h => exact iff_of_true rfl h
  · next h => exact iff_of_false Bool.false_ne_true h

theorem scanMedia_isSome_iff : (scanMedia line info).isSome = true ↔ MediaFits line := by
  rw [scanMedia, MediaFits]
  cases hscan : scanD (line.dropWhile (· != 32)) with
  | none => exact iff_of_true rfl fun port rest h => by cases h
  | some r =>
    obtain ⟨port, rest⟩ := r
    have hfits : (∀ port' rest', some (port, rest) = some (port', rest') → (word rest').length < 10) ↔
        (word rest).length < 10 := by
      constructor
      · exact fun h => h port rest rfl
      · rintro h port' rest' heq
        cases heq
        exact h
    rw [hfits]
    simp only
    split
    · next hempty => exact iff_of_true rfl (by rw [hempty]; decide)
    · rw [← put_isSome_iff]
      cases Field.put 10 (word rest) with
      | none => rfl
      | some proto =>
        simp only [Option.bind_eq_bind, Option.bind_some, Option.isSome_some, iff_true]
        split
        · rfl
        · rfl

theorem scanControl_isSome_iff : (scanControl line info).isSome = true ↔ ControlFits line := by
  rw [scanControl, ControlFits]
  split
  · next hempty => exact iff_of_true rfl (by rw [hempty]; decide)
  · rw [Option.isSome_map, put_isSome_iff]

theorem scanRtpmap_isSome_iff : (scanRtpmap line info).isSome = true ↔ RtpmapFits line := by
  rw [scanRtpmap, RtpmapFits]
  cases hscan : scanD (afterColon line) with
  | none => exact iff_of_true rfl fun port rest h => by cases h
  | some r =>
    obtain ⟨format, rest⟩ := r
    have hfits : (∀ format' rest', some (format, rest) = some (format', rest') →
        (beforeSlash rest').length < 10) ↔ (beforeSlash rest).length < 10 := by
      constructor
      · exact fun h => h format rest rfl
      · rintro h format' rest' heq
        cases heq
        exact h
    rw [hfits]
    simp only
    split
    · next hempty => exact iff_of_true rfl (by rw [hempty]; decide)
    · rw [← put_isSome_iff]
      cases Field.put 10 (beforeSlash rest) with
      | none => rfl
      | some type =>
        simp only [Option.bind_eq_bind, Option.bind_some, Option.isSome_some, iff_true]
        split
        · split
          · rfl
          · rfl
        · rfl

theorem decodeSprop_isSome_iff : (decodeSprop before str).isSome = true ↔ SpropFits before str := by
  rw [decodeSprop, SpropFits, ← base64Decode_isSome_iff str before]
  cases hdecode : base64Decode str before with
  | none => exact iff_of_false Bool.false_ne_true fun h => absurd h.1 Bool.false_ne_true
  | some r =>
    obtain ⟨out, outlen⟩ := r
    constructor
    · intro h
      refine ⟨rfl, fun out' outlen' heq => ?_⟩
      cases heq
      exact h
    · exact fun h => h.2 out outlen rfl

theorem fmtpLoop_isSome_iff (params : List (List UInt8)) :
    (fmtpLoop before params).isSome = true ↔
      ∀ param ∈ params, ∀ str ∈ spropValue param, SpropFits before str := by
  induction params with
  | nil => exact iff_of_true rfl fun param h => absurd h List.not_mem_nil
  | cons param params ih =>
    rw [fmtpLoop, List.forall_mem_cons]
    cases hvalue : spropValue param with
    | none =>
      simp only [ih]
      exact ⟨fun h => ⟨fun str hstr => absurd hstr (Option.not_mem_none str), h⟩, fun h => h.2⟩
    | some str =>
      have hfirst : (∀ str' ∈ some str, SpropFits before str') ↔ SpropFits before str := by
        constructor
        · exact fun h => h str rfl
        · rintro h str' heq
          cases heq
          exact h
      rw [hfirst, ← decodeSprop_isSome_iff]
      exact isSome_bind_iff fun _ => ih

/-- A step that is taken under a condition only. -/
theorem isSome_ite_iff {c P : Prop} [Decidable c] {α : Type} {step other : Option α} (hother : other.isSome = true)
    (h : step.isSome = true ↔ P) : (if c then step else other).isSome = true ↔ (c → P) := by
  split
  · next hc => exact h.trans ⟨fun hp _ => hp, fun hp => hp hc⟩
  · next hc => exact iff_of_true hother fun h => absurd h hc

theorem parseAttr_isSome_iff : (parseAttr before line info).isSome = true ↔ AttrFits before line := by
  have hfits : (startsCI (text "a=control:") line = true → ControlFits line) ∧
      (startsCI (text "a=rtpmap:") line = true → RtpmapFits line) ∧
        (startsCI (text "a=fmtp:") line = true → FmtpFits before line) ↔ AttrFits before line :=
    ⟨fun h => ⟨h.1, h.2.1, h.2.2⟩, fun h => ⟨h.control, h.rtpmap, h.fmtp⟩⟩
  have hfmtp (info : SDPInfo) : (Option.map (fun _ => info) (if startsCI (text "a=fmtp:") line = true then fmtpLoop before (strtok line)
      else some ())).isSome = true ↔ (startsCI (text "a=fmtp:") line = true → FmtpFits before line) := by
    rw [Option.isSome_map]
    exact isSome_ite_iff Option.isSome_some (fmtpLoop_isSome_iff _)
  have hrtpmap (info : SDPInfo) : (if startsCI (text "a=rtpmap:") line = true then scanRtpmap line info
      else some info).isSome = true ↔ (startsCI (text "a=rtpmap:") line = true → RtpmapFits line) :=
    isSome_ite_iff Option.isSome_some scanRtpmap_isSome_iff
  have hcontrol (info : SDPInfo) : (if startsCI (text "a=control:") line = true then scanControl line info
      else some info).isSome = true ↔ (startsCI (text "a=control:") line = true → ControlFits line) :=
    isSome_ite_iff Option.isSome_some scanControl_isSome_iff
  have hrest (info : SDPInfo) := (isSome_bind_iff hfmtp).trans (and_congr (hrtpmap info) Iff.rfl)
  rw [← hfits]
  exact (isSome_bind_iff hrest).trans (and_congr (hcontrol _) Iff.rfl)

/-- The numbers of the sections fit together. -/
def SdpState.Valid (st : SdpState) : Prop := st.mediaVideo ≤ st.mediaDesc

/-- The lines belong to the video section. -/
def SdpState.inVideo (st : SdpState) : Bool := decide ((st.mediaDesc : Int) = st.mediaVideo)

/-- The number of the section behind the first bytes of a line. -/
theorem inVideo_desc {st : SdpState} (hvalid : st.Valid) (hnot : startsCI (text "m=video ") line = false) :
    (st.nextDesc line : Int) = st.mediaVideo ↔ sectionAfter st.inVideo line = true := by
  rw [SdpState.Valid] at hvalid
  rw [sectionAfter, hnot, if_neg Bool.false_ne_true, SdpState.nextDesc]
  cases startsCI (text "m=") line with
  | true =>
    rw [if_pos rfl, if_pos rfl]
    exact iff_of_false (by omega) Bool.false_ne_true
  | false => rw [if_neg Bool.false_ne_true, if_neg Bool.false_ne_true, SdpState.inVideo, decide_eq_true_iff]

theorem le_nextDesc (st : SdpState) (line : List UInt8) : st.mediaDesc ≤ st.nextDesc line := by
  rw [SdpState.nextDesc]
  split
  · exact Nat.le_succ _
  · exact Nat.le_refl _

theorem parseLine_isSome_iff {st : SdpState} (hvalid : st.Valid) (hlen : line.length < linestrSize) :
    (parseLine before line st).isSome = true ↔ LineFits before st.inVideo line := by
  rw [parseLine]
  cases hvideo : startsCI (text "m=video ") line with
  | true =>
    rw [if_pos rfl, Option.isSome_map, scanMedia_isSome_iff]
    exact ⟨fun h => ⟨hlen, fun _ => h, fun hnot => absurd (hvideo.symm.trans hnot) (by decide)⟩, fun h => h.media hvideo⟩
  | false =>
    rw [if_neg Bool.false_ne_true]
    by_cases hsection : sectionAfter st.inVideo line = true
    · have hdesc := (inVideo_desc hvalid hvideo).mpr hsection
      rw [if_neg (not_not.mpr hdesc), Option.isSome_map, parseAttr_isSome_iff]
      exact ⟨fun h => ⟨hlen, fun hyes => absurd (hvideo.symm.trans hyes) (by decide), fun _ _ => h⟩,
        fun h => h.attr hvideo hsection⟩
    · have hdesc := (inVideo_desc hvalid hvideo).not.mpr hsection
      rw [if_pos hdesc]
      exact iff_of_true rfl ⟨hlen, fun hyes => absurd (hvideo.symm.trans hyes) (by decide),
        fun _ hyes => absurd hyes hsection⟩

theorem parseLine_section {st st' : SdpState} (hvalid : st.Valid) (h : parseLine before line st = some st') :
    st'.Valid ∧ st'.inVideo = sectionAfter st.inVideo line := by
  rw [parseLine] at h
  cases hvideo : startsCI (text "m=video ") line with
  | true =>
    rw [hvideo, if_pos rfl] at h
    obtain ⟨info, -, rfl⟩ := Option.map_eq_some_iff.mp h
    refine ⟨Int.le_refl _, ?_⟩
    rw [sectionAfter, if_pos hvideo, SdpState.inVideo]
    exact decide_eq_true rfl
  | false =>
    rw [hvideo, if_neg Bool.false_ne_true] at h
    have hiff := inVideo_desc hvalid hvideo
    have hle := le_nextDesc st line
    rw [SdpState.Valid] at hvalid
    split at h
    · next hdesc =>
      cases h
      refine ⟨?_, ?_⟩
      · show st.mediaVideo ≤ st.nextDesc line
        omega
      · rw [Bool.eq_iff_iff, ← hiff, SdpState.inVideo, decide_eq_true_iff]
    · next hdesc =>
      obtain ⟨info, -, rfl⟩ := Option.map_eq_some_iff.mp h
      refine ⟨?_, ?_⟩
      · rw [SdpState.Valid]
        exact Int.le_of_eq (not_not.mp hdesc).symm
      · rw [Bool.eq_iff_iff, ← hiff, SdpState.inVideo, decide_eq_true_iff]

/-! ## Lines and carriage returns -/

theorem loneCr_cons {b : UInt8} : LoneCr (b :: str) ↔ (b = 13 ∧ str.head? ≠ some 10) ∨ LoneCr str := by
  constructor
  · rintro ⟨front, back, heq, hback⟩
    cases front with
    | nil =>
      obtain ⟨rfl, rfl⟩ := List.cons.inj heq
      exact Or.inl ⟨rfl, hback⟩
    | cons c front =>
      obtain ⟨rfl, rfl⟩ := List.cons.inj heq
      exact Or.inr ⟨front, back, rfl, hback⟩
  · rintro (⟨rfl, hback⟩ | ⟨front, back, rfl, hback⟩)
    · exact ⟨[], str, rfl, hback⟩
    · exact ⟨b :: front, back, rfl, hback⟩

theorem not_loneCr_nil : ¬LoneCr [] := by
  rintro ⟨front, back, heq, -⟩
  exact absurd heq.symm (List.append_ne_nil_of_right_ne_nil _ (List.cons_ne_nil _ _))

/-- The bytes of a line. -/
theorem loneCr_append (hline : ∀ b ∈ line, inLine b = true) (rest : List UInt8) :
    LoneCr (line ++ rest) ↔ LoneCr rest := by
  induction line with
  | nil => rfl
  | cons b line ih =>
    rw [List.forall_mem_cons] at hline
    rw [List.cons_append, loneCr_cons, ih hline.2, or_iff_right]
    rintro ⟨rfl, -⟩
    exact absurd hline.1 (by decide)

/-- The first line and what is behind it. -/
theorem linesOf_line (hline : ∀ b ∈ line, inLine b = true) (rest : List UInt8) :
    (line ≠ [] → linesOf line = [line]) ∧ linesOf (line ++ 10 :: rest) = line :: linesOf rest ∧
      linesOf (line ++ 13 :: 10 :: rest) = line :: linesOf rest := by
  induction line with
  | nil =>
    refine ⟨fun h => absurd rfl h, ?_, ?_⟩
    · rw [List.nil_append, linesOf]
    · rw [List.nil_append, linesOf]
  | cons b line ih =>
    rw [List.forall_mem_cons] at hline
    obtain ⟨hend, hlf, hcrlf⟩ := ih hline.2
    have hb10 : b ≠ 10 := by
      rintro rfl
      exact absurd hline.1 (by decide)
    have hb13 : b ≠ 13 := by
      rintro rfl
      exact absurd hline.1 (by decide)
    have hcons (str : List UInt8) : linesOf (b :: str) =
        match linesOf str with
        | [] => [[b]]
        | first :: lines => (b :: first) :: lines := by
      rw [linesOf]
      · exact hb10
      · exact fun _ h => absurd h hb13
    refine ⟨fun _ => ?_, ?_, ?_⟩
    · rw [hcons]
      by_cases hne : line = []
      · rw [hne]
        rfl
      · rw [hend hne]
    · rw [List.cons_append, hcons, hlf]
    · rw [List.cons_append, hcons, hcrlf]

/-- How a text goes on behind its first line. -/
theorem line_cases (h0 : 0 ∉ str) :
    ∃ line tail, str = line ++ tail ∧ (∀ b ∈ line, inLine b = true) ∧ str.takeWhile inLine = line ∧
      (tail = [] ∨ (∃ rest, tail = 10 :: rest) ∨ (∃ rest, tail = 13 :: 10 :: rest) ∨
        ∃ rest, tail = 13 :: rest ∧ rest.head? ≠ some 10) := by
  refine ⟨str.takeWhile inLine, str.dropWhile inLine, List.takeWhile_append_dropWhile.symm,
    fun b hb => List.mem_takeWhile_imp hb, rfl, ?_⟩
  cases htail : str.dropWhile inLine with
  | nil => exact Or.inl rfl
  | cons b rest =>
    have hb : inLine b = false := by
      have hhead := List.head?_dropWhile_not inLine str
      rw [htail] at hhead
      simpa using hhead
    have hb0 : b ≠ 0 := by
      rintro rfl
      exact h0 ((List.dropWhile_suffix inLine).subset (htail ▸ List.mem_cons_self))
    have hstop : b = 10 ∨ b = 13 := by
      rw [inLine] at hb
      simp only [Bool.and_eq_false_iff, bne_eq_false_iff_eq] at hb
      rcases hb with (h | h) | h
      · exact absurd h hb0
      · exact Or.inl h
      · exact Or.inr h
    rcases hstop with rfl | rfl
    · exact Or.inr (Or.inl ⟨rest, rfl⟩)
    · by_cases hlf : rest.head? = some 10
      · obtain ⟨rest', rfl⟩ := List.head?_eq_some_iff.mp hlf
        exact Or.inr (Or.inr (Or.inl ⟨rest', rfl⟩))
      · exact Or.inr (Or.inr (Or.inr ⟨rest, rfl, hlf⟩))

/-! ## The whole text -/

/-- The loop comes to its end, and everything fits until then. -/
def Ends (before : Mem) (str : List UInt8) (st : SdpState) : Prop :=
  ∃ fuel info, sdpLoop before fuel str st = some info

theorem ends_nil (before : Mem) (st : SdpState) : Ends before [] st := ⟨1, st.info, rfl⟩

/-- What is read is parsed, and the loop goes on behind it. -/
theorem ends_iff {st : SdpState} (hhead : str.headD 0 ≠ 0)
    (hread : stringReadline str = if line.length < linestrSize then some (line, rest) else none) :
    Ends before str st ↔
      line.length < linestrSize ∧ ∃ st', parseLine before line st = some st' ∧ Ends before rest st' := by
  constructor
  · rintro ⟨fuel, info, hloop⟩
    cases fuel with
    | zero => cases hloop
    | succ fuel =>
      rw [sdpLoop, if_neg hhead, hread] at hloop
      by_cases hlen : line.length < linestrSize
      · rw [if_pos hlen] at hloop
        simp only [Option.bind_eq_bind, Option.bind_some] at hloop
        obtain ⟨st', hparse, hrest⟩ := Option.bind_eq_some_iff.mp hloop
        exact ⟨hlen, st', hparse, fuel, info, hrest⟩
      · rw [if_neg hlen] at hloop
        cases hloop
  · rintro ⟨hlen, st', hparse, fuel, info, hrest⟩
    refine ⟨fuel + 1, info, ?_⟩
    rw [sdpLoop, if_neg hhead, hread, if_pos hlen]
    simp only [Option.bind_eq_bind, Option.bind_some, hparse, hrest]

/-- At a carriage return without a line feed the loop reads an empty line over and over. -/
theorem not_ends_loneCr (hlone : rest.head? ≠ some 10) (st : SdpState) : ¬Ends before (13 :: rest) st := by
  have hread : stringReadline (13 :: rest) = some ([], 13 :: rest) := by
    rw [stringReadline, List.takeWhile_cons_of_neg (by decide)]
    cases rest with
    | nil => rfl
    | cons b rest =>
      rw [List.head?_cons, ne_eq, Option.some_inj] at hlone
      rw [List.length_nil, if_pos (by decide), List.drop_zero]
      split
      · next heq => exact absurd (List.cons.inj (List.cons.inj heq).2).1 hlone
      · next heq => exact absurd (List.cons.inj heq).1 (by decide)
      · rfl
  have hempty (info : SDPInfo) : parseAttr before [] info = some info := rfl
  have hparse : parseLine before [] st = some st := by
    show (if (st.mediaDesc : Int) ≠ st.mediaVideo then some st
      else (parseAttr before [] st.info).map fun info => ⟨st.mediaDesc, st.mediaVideo, info⟩) = some st
    rw [hempty, Option.map_some]
    split
    · rfl
    · rfl
  rintro ⟨fuel, info, hloop⟩
  induction fuel with
  | zero => cases hloop
  | succ fuel ih =>
    have hhead : ¬(13 :: rest).headD 0 = 0 := show ¬(13 : UInt8) = 0 by decide
    rw [sdpLoop, if_neg hhead, hread] at hloop
    simp only [Option.bind_eq_bind, Option.bind_some, hparse] at hloop
    exact ih hloop

/-- What is read of a text with the first line `line`. -/
theorem stringReadline_eq {tail : List UInt8} (hstr : str = line ++ tail) (htake : str.takeWhile inLine = line) :
    stringReadline str = if line.length < linestrSize then
      match tail with
      | 13 :: 10 :: rest => some (line, rest)
      | 10 :: rest => some (line, rest)
      | rest => some (line, rest)
    else none := by
  have hdrop : str.drop line.length = tail := by rw [hstr, List.drop_left]
  rw [stringReadline, htake, hdrop]

theorem headD_ne_zero (h0 : 0 ∉ str) (hne : str ≠ []) : str.headD 0 ≠ 0 := by
  cases str with
  | nil => exact absurd rfl hne
  | cons b str =>
    rintro rfl
    exact h0 List.mem_cons_self

/-- From any line on: no carriage return is alone, and every line fits. -/
theorem ends_iff_fits {st : SdpState} (h0 : 0 ∉ str) (hvalid : st.Valid) :
    Ends before str st ↔ ¬LoneCr str ∧ LinesFit before st.inVideo (linesOf str) := by
  induction hn : str.length using Nat.strong_induction_on generalizing str st with
  | _ n ih =>
    subst hn
    obtain ⟨line, tail, hstr, hline, htake, htail⟩ := line_cases h0
    -- the step for a line with an end, or at the end of the text
    have hstep (rest : List UInt8) (hne : str ≠ []) (hshort : rest.length < str.length) (hrest0 : 0 ∉ rest)
        (hread : stringReadline str = if line.length < linestrSize then some (line, rest) else none)
        (hlone : LoneCr str ↔ LoneCr rest) (hlines : linesOf str = line :: linesOf rest) :
        Ends before str st ↔ ¬LoneCr str ∧ LinesFit before st.inVideo (linesOf str) := by
      rw [ends_iff (headD_ne_zero h0 hne) hread, hlone, hlines, LinesFit]
      constructor
      · rintro ⟨hlen, st', hparse, hends⟩
        obtain ⟨hvalid', hsection⟩ := parseLine_section hvalid hparse
        obtain ⟨hno, hfit⟩ := (ih rest.length hshort hrest0 hvalid' rfl).mp hends
        rw [hsection] at hfit
        exact ⟨hno, (parseLine_isSome_iff hvalid hlen).mp (by rw [hparse]; rfl), hfit⟩
      · rintro ⟨hno, hfirst, hfit⟩
        obtain ⟨st', hparse⟩ := Option.isSome_iff_exists.mp ((parseLine_isSome_iff hvalid hfirst.length).mpr hfirst)
        obtain ⟨hvalid', hsection⟩ := parseLine_section hvalid hparse
        rw [← hsection] at hfit
        exact ⟨hfirst.length, st', hparse, (ih rest.length hshort hrest0 hvalid' rfl).mpr ⟨hno, hfit⟩⟩
    have hread := stringReadline_eq hstr htake
    obtain rfl | ⟨rest, rfl⟩ | ⟨rest, rfl⟩ | ⟨rest, rfl, hlone⟩ := htail
    · rw [List.append_nil] at hstr
      subst hstr
      by_cases hne : str = []
      · subst hne
        exact iff_of_true (ends_nil before st) ⟨not_loneCr_nil, trivial⟩
      · refine hstep [] hne (List.length_pos_iff.mpr hne) List.not_mem_nil hread ?_ ((linesOf_line hline []).1 hne)
        have happend := loneCr_append hline []
        rwa [List.append_nil] at happend
    · subst hstr
      have hshort : rest.length < (line ++ 10 :: rest).length := by
        rw [List.length_append, List.length_cons]
        omega
      refine hstep rest (by simp) hshort (fun h => h0 (by simp [h])) hread ?_ (linesOf_line hline rest).2.1
      rw [loneCr_append hline, loneCr_cons, or_iff_right fun h => absurd h.1 (by decide)]
    · subst hstr
      have hshort : rest.length < (line ++ 13 :: 10 :: rest).length := by
        rw [List.length_append, List.length_cons, List.length_cons]
        omega
      refine hstep rest (by simp) hshort (fun h => h0 (by simp [h])) hread ?_ (linesOf_line hline rest).2.2
      rw [loneCr_append hline, loneCr_cons, loneCr_cons, or_iff_right fun h => h.2 rfl,
        or_iff_right fun h => absurd h.1 (by decide)]
    · have hno : LoneCr str := ⟨line, rest, hstr, hlone⟩
      refine iff_of_false (fun hends => ?_) fun h => h.1 hno
      have hmatch : (match 13 :: rest with
          | 13 :: 10 :: rest => some (line, rest)
          | 10 :: rest => some (line, rest)
          | rest => some (line, rest)) = some (line, 13 :: rest) := by
        split
        · next heq =>
          rw [(List.cons.inj heq).2] at hlone
          exact absurd rfl hlone
        · next heq => exact absurd (List.cons.inj heq).1 (by decide)
        · rfl
      rw [hmatch] at hread
      have hhead : str.headD 0 ≠ 0 := headD_ne_zero h0 (by rw [hstr]; simp)
      obtain ⟨-, st', -, hstuck⟩ := (ends_iff hhead hread).mp hends
      exact not_ends_loneCr hlone st' hstuck

/-- `sdp_parse` comes to its end and stays in `linestr`, the fields and the array for the parameter set, whatever is in
that array before, just when no carriage return is alone and every line fits. -/
theorem safe_iff (h0 : 0 ∉ str) (info : SDPInfo) :
    (∀ before, ∃ fuel info', sdpParse before fuel str info = some info') ↔
      ¬LoneCr str ∧ ∀ before, LinesFit before false (linesOf str) := by
  have hvalid : (⟨0, -1, info⟩ : SdpState).Valid := show (-1 : Int) ≤ (0 : Nat) by decide
  have hends (before : Mem) : (∃ fuel info', sdpParse before fuel str info = some info') ↔
      ¬LoneCr str ∧ LinesFit before false (linesOf str) := ends_iff_fits h0 hvalid
  constructor
  · intro hall
    exact ⟨((hends .zero).mp (hall .zero)).1, fun before => ((hends before).mp (hall before)).2⟩
  · exact fun h before => (hends before).mpr ⟨h.1, h.2 before⟩

theorem safe_track :
    (∀ before, ∃ fuel info', sdpParse before fuel (text "m=video 0 RTP/AVP 96\r\na=control:track1\n") .zero =
        some info') ↔
      ¬LoneCr (text "m=video 0 RTP/AVP 96\r\na=control:track1\n") ∧
        ∀ before, LinesFit before false (linesOf (text "m=video 0 RTP/AVP 96\r\na=control:track1\n")) :=
  safe_iff (by decide +kernel) .zero

/-- At the end of a line with nothing but a carriage return the parser stays for ever. -/
theorem not_safe_loneCr :
    ¬∃ fuel info', sdpParse .zero fuel (text "\r") .zero = some info' :=
  not_ends_loneCr (show ([] : List UInt8).head? ≠ some 10 by decide) _

end

end ProgrammingPath.Rtsp
