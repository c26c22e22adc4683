import ProgrammingPath.Rtsp.Number

/-!
# Frames and responses on the wire

What a frame and a response look like, and how a reader goes through them whatever its policy is: four
bytes tell which of the two it is, and a response is at its end when the head with its blank line and as many
bytes behind it as the head tells have arrived.
-/

namespace ProgrammingPath.Rtsp

open ProgrammingPath.Lib

/-! ## Frames -/

/-- A frame: its length has 16 bits. -/
def interleaved (channel : UInt8) (payload : List UInt8) : List UInt8 :=
  36 :: channel :: UInt8.ofNat (payload.length / 256) :: UInt8.ofNat (payload.length % 256) :: payload

theorem length_interleaved (channel : UInt8) (payload : List UInt8) :
    (interleaved channel payload).length = payload.length + 4 := rfl

theorem ntohs_ofNat {n : Nat} (h : n < 65536) :
    ntohs (UInt8.ofNat (n / 256)) (UInt8.ofNat (n % 256)) = n := by
  rw [ntohs, UInt8.toNat_ofNat', UInt8.toNat_ofNat', Nat.mod_eq_of_lt (by omega),
    Nat.mod_eq_of_lt (by omega)]
  omega

/-! ## Responses -/

/-- The head of a response: `version code reason`, header lines and a blank line. -/
def responseHead (version digits rest : List UInt8) : List UInt8 :=
  version ++ 32 :: (digits ++ 32 :: rest)

/-- A response of any length. Its head starts with `RTSP` and ends with the first blank line, and its body
has the length the head tells. -/
structure Reply where
  version : List UInt8
  digits : List UInt8
  rest : List UInt8
  body : List UInt8
  version_starts : rtspMagic <+: version
  version_text : ∀ b ∈ version, b ≠ 32 ∧ b ≠ 0
  version_le : version.length ≤ 9
  digits_ne : digits ≠ []
  digits_digit : ∀ b ∈ digits, isDigit b = true
  blank : httpHeardGetlength (responseHead version digits rest) =
    (responseHead version digits rest).length
  blank_first : ∀ n < (responseHead version digits rest).length,
    httpHeardGetlength ((responseHead version digits rest).take n) = 0
  body_length : httpHeadGetContentLength (responseHead version digits rest) = body.length ∨
    httpHeadGetContentLength (responseHead version digits rest) = -1 ∧ body = []

def Reply.head (r : Reply) : List UInt8 := responseHead r.version r.digits r.rest

def Reply.bytes (r : Reply) : List UInt8 := r.head ++ r.body

/-- The status code of a response. -/
def Reply.code (r : Reply) : Int := decimal r.digits

variable {r : Reply} {after : List UInt8} {s : Reader} {pol : Policy} {b : UInt8} {more : List UInt8}

theorem Reply.length_version_ge (r : Reply) : 4 ≤ r.version.length := r.version_starts.length_le

theorem Reply.length_head (r : Reply) : r.version.length < r.head.length := by
  rw [Reply.head, responseHead, List.length_append, List.length_cons]
  omega

theorem Reply.length_bytes (r : Reply) : r.bytes.length = r.head.length + r.body.length :=
  List.length_append

/-- A response starts with `RTSP`, and there is more of it. -/
theorem Reply.bytes_eq_magic (r : Reply) : ∃ tail, r.bytes = rtspMagic ++ tail ∧ tail ≠ [] := by
  obtain ⟨tail, htail⟩ := r.version_starts
  refine ⟨tail ++ (32 :: (r.digits ++ 32 :: r.rest) ++ r.body), ?_, by simp⟩
  rw [Reply.bytes, Reply.head, responseHead, ← htail]
  simp

/-- `sscanf` finds the status code. -/
theorem Reply.sscanfCode (r : Reply) : sscanfCode r.bytes = r.code := by
  have hversion : r.version ≠ [] := by
    intro hnil
    have := r.version_starts.length_le
    rw [hnil] at this
    exact absurd this (by decide)
  -- the status line has no NUL up to the code
  have htext : r.bytes.takeWhile (· != 0) =
      r.version ++ 32 :: (r.digits ++ 32 :: (r.rest ++ r.body).takeWhile (· != 0)) := by
    rw [Reply.bytes, Reply.head, responseHead, List.append_assoc,
      List.takeWhile_append_of_pos (by simpa using fun b hb => (r.version_text b hb).2),
      List.cons_append, List.takeWhile_cons_of_pos (by decide), List.append_assoc,
      List.takeWhile_append_of_pos (by simpa using fun b hb => (isDigit_facts (r.digits_digit b hb)).1),
      List.cons_append, List.takeWhile_cons_of_pos (by decide)]
  generalize (r.rest ++ r.body).takeWhile (· != 0) = more at htext
  have hpref : (r.version ++ 32 :: (r.digits ++ 32 :: more)).takeWhile (· != 32) = r.version := by
    rw [List.takeWhile_append_of_pos (by simpa using fun b hb => (r.version_text b hb).1),
      List.takeWhile_cons_of_neg (by decide), List.append_nil]
  have hrest : (r.version ++ 32 :: (r.digits ++ 32 :: more)).dropWhile (· != 32) =
      32 :: (r.digits ++ 32 :: more) := by
    rw [List.dropWhile_append_of_pos (by simpa using fun b hb => (r.version_text b hb).1),
      List.dropWhile_cons_of_neg (by decide)]
  have hscan : scanInt (32 :: (r.digits ++ 32 :: more)) = some (decimal r.digits : Int) := by
    have hblank : ∀ b ∈ ([32] : List UInt8), isSpace b = true := List.forall_mem_singleton.mpr rfl
    apply scanInt_digits hblank r.digits_ne r.digits_digit
    intro b hb
    cases hb
    rfl
  rw [ProgrammingPath.Rtsp.sscanfCode, htext, hpref, if_neg hversion, hrest, hscan]
  rfl

/-! ## What a policy leaves alone -/

/-- The policies only decide how to go on. -/
structure Policy.Plain (pol : Policy) : Prop where
  unknown_calls : ∀ s, (pol.unknown s).calls = s.calls
  answered_calls : ∀ s code, (pol.answered s code).calls = s.calls

theorem rtspRecv_plain : rtspRecv.Plain := ⟨fun _ => rfl, fun _ _ => rfl⟩

theorem streamRecv_plain : streamRecv.Plain := by
  refine ⟨fun _ => rfl, fun s code => ?_⟩
  show (if code = 200 then { s with rflag := Flag.head } else { s with result := some 0 }).calls = _
  split <;> rfl

theorem calls_onHead (hp : pol.Plain) (b : UInt8) : (onHead pol s b).calls = s.calls := by
  simp only [onHead]
  split
  · split
    · rfl
    · split
      · split <;> rfl
      · rw [hp.unknown_calls]
  · rfl

theorem calls_httpRecv (b : UInt8) : (httpRecv s b).calls = s.calls := by
  simp only [httpRecv]
  split <;> rfl

theorem calls_onText (hp : pol.Plain) (b : UInt8) : (onText pol s b).calls = s.calls := by
  rw [onText]
  split
  · rfl
  · split
    · rw [hp.answered_calls, calls_httpRecv]
    · rw [calls_httpRecv]

/-! ## The four bytes of a head -/

/-- A head that is not complete. -/
theorem onHead_of_lt (h : s.packetHead.length < 3) :
    onHead pol s b = { s with packetHead := s.packetHead ++ [b] } := by
  have hlen : ¬(s.packetHead ++ [b]).length = 4 := by
    rw [List.length_append, List.length_singleton]
    omega
  simp only [onHead, if_neg hlen]

/-- What follows is a response. -/
theorem onHead_of_magic (h : s.packetHead ++ [b] = rtspMagic) :
    onHead pol s b =
      { s with
        packetHead := [], rflag := .text, buffRtsp := rtspMagic, headLength := 0
        contentLength := 0 } := by
  simp only [onHead, h, show rtspMagic.length = 4 from rfl, if_true]

/-- What follows is a frame. -/
theorem onHead_of_dollar {channel hi lo : UInt8} (h : s.packetHead ++ [b] = [36, channel, hi, lo]) :
    onHead pol s b =
      { s with
        packetHead := [], rflag := .frame, rtspifChannel := channel, rtspifLen := ntohs hi lo
        wpos := 0 } := by
  have hmagic : ¬[36, channel, hi, lo] = rtspMagic := by
    intro heq
    rw [rtspMagic, List.cons.injEq] at heq
    exact absurd heq.1 (by decide)
  have hfit : ¬buffRtcpRtpSize < ntohs hi lo := by
    have hhi := hi.toNat_lt
    have hlo := lo.toNat_lt
    rw [buffRtcpRtpSize, ntohs]
    omega
  simp only [onHead, h, List.length_cons, List.length_nil, List.headD_cons, if_neg hmagic,
    List.getD_cons_zero, List.getD_cons_succ, if_true, if_neg hfit]

/-- The fourth byte of a head in front of others. -/
theorem head_split {head : List UInt8} (hhead : head.length = 4) (hlen : s.packetHead.length = 3)
    (hout : s.outstanding = b :: more) (hstream : s.packetHead ++ s.outstanding = head ++ after) :
    s.packetHead ++ [b] = head ∧ more = after := by
  apply List.append_inj
  · rw [← hstream, hout, List.append_assoc, List.singleton_append]
  · rw [List.length_append, hlen, hhead, List.length_singleton]

/-! ## The text of a response -/

/-- The reader is in a response with `after` behind it, and has looked for the blank line in what it has
of it. -/
structure InReply (r : Reply) (after : List UInt8) (s : Reader) : Prop where
  flag : s.rflag = .text
  stream : s.buffRtsp ++ s.outstanding = r.bytes ++ after
  short : s.buffRtsp.length < r.head.length → s.headLength = 0 ∧ s.contentLength = 0
  long : r.head.length ≤ s.buffRtsp.length →
    s.headLength = r.head.length ∧ s.contentLength = r.body.length

theorem outstanding_httpRecv (b : UInt8) : (httpRecv s b).outstanding = s.outstanding := by
  simp only [httpRecv]
  split <;> rfl

theorem buffRtsp_httpRecv (b : UInt8) : (httpRecv s b).buffRtsp = s.buffRtsp ++ [b] := by
  simp only [httpRecv]
  split <;> rfl

/-- The reader has the four bytes of the head. -/
theorem inReply_magic (hflag : s.rflag = .text) (hbuff : s.buffRtsp = rtspMagic)
    (hhead : s.headLength = 0) (hcontent : s.contentLength = 0)
    (hstream : rtspMagic ++ s.outstanding = r.bytes ++ after) : InReply r after s := by
  refine ⟨hflag, hbuff ▸ hstream, fun _ => ⟨hhead, hcontent⟩, fun hle => ?_⟩
  have h1 := r.length_version_ge
  have h2 := r.length_head
  rw [hbuff] at hle
  have h3 : r.head.length ≤ 4 := hle
  omega

/-- `_http_recv` finds the blank line with its last byte. -/
theorem inReply_httpRecv (h : InReply r after s) (hout : s.outstanding = b :: more) :
    InReply r after (httpRecv { s with outstanding := more } b) := by
  have hstream : s.buffRtsp ++ [b] ++ more = r.head ++ (r.body ++ after) := by
    have := h.stream
    rw [hout, Reply.bytes, List.append_assoc] at this
    rw [List.append_assoc, List.singleton_append, this]
  have hstreamNext : s.buffRtsp ++ [b] ++ more = r.bytes ++ after := by
    rw [hstream, Reply.bytes, List.append_assoc]
  have hhead := r.length_head
  have hlen : (s.buffRtsp ++ [b]).length = s.buffRtsp.length + 1 := List.length_append
  by_cases hshort : s.buffRtsp.length < r.head.length
  · have hbuff : s.buffRtsp ++ [b] = r.head.take (s.buffRtsp.length + 1) := by
      have htake := congrArg (List.take (s.buffRtsp.length + 1)) hstream
      rw [List.take_left' hlen, List.take_append_of_le_length (by omega)] at htake
      exact htake
    simp only [httpRecv, (h.short hshort).1, if_true, (h.short hshort).2]
    by_cases hlast : s.buffRtsp.length + 1 = r.head.length
    · have hall : s.buffRtsp ++ [b] = r.head := by rw [hbuff, hlast, List.take_length]
      have hblank : httpHeardGetlength r.head = r.head.length := r.blank
      have hne : r.head.length ≠ 0 := by omega
      refine ⟨h.flag, hstreamNext, fun hlt => ?_, fun _ => ⟨?_, ?_⟩⟩
      · exact absurd (show (s.buffRtsp ++ [b]).length < r.head.length from hlt) (by omega)
      · rw [hall, hblank]
      · simp only [hall, hblank, ne_eq, hne, not_false_eq_true, if_true, List.take_length]
        rcases r.body_length with hbody | ⟨hbody, hnil⟩
        · have hbody : httpHeadGetContentLength r.head = r.body.length := hbody
          rw [hbody, if_neg (by omega)]
        · have hbody : httpHeadGetContentLength r.head = -1 := hbody
          rw [hbody, if_pos rfl, hnil]
          rfl
    · have hnone : httpHeardGetlength (s.buffRtsp ++ [b]) = 0 := by
        rw [hbuff]
        exact r.blank_first _ (show s.buffRtsp.length + 1 < r.head.length by omega)
      refine ⟨h.flag, hstreamNext, fun _ => ⟨hnone, ?_⟩, fun hle => ?_⟩
      · rw [hnone]
        rfl
      · exact absurd (show r.head.length ≤ (s.buffRtsp ++ [b]).length from hle) (by omega)
  · obtain ⟨hl, hc⟩ := h.long (by omega)
    have hne : ¬r.head.length = 0 := by omega
    simp only [httpRecv, hl, if_neg hne]
    refine ⟨h.flag, hstreamNext, fun hlt => ?_, fun _ => ⟨rfl, hc⟩⟩
    exact absurd (show (s.buffRtsp ++ [b]).length < r.head.length from hlt) (by omega)

/-- The test in the loop: nothing of the response is missing. -/
theorem inReply_complete_iff (h : InReply r after s) :
    s.headLength ≠ 0 ∧ s.contentLength + s.headLength = s.buffRtsp.length ↔
      s.buffRtsp.length = r.bytes.length := by
  have hhead := r.length_head
  have hbytes := r.length_bytes
  by_cases hshort : s.buffRtsp.length < r.head.length
  · rw [(h.short hshort).1]
    omega
  · obtain ⟨hl, hc⟩ := h.long (by omega)
    rw [hl, hc]
    omega

/-- A byte of a response. It is one too many for the buffer, the last one of the response, or neither. -/
theorem inReply_step (h : InReply r after s) (hout : s.outstanding = b :: more) :
    onText pol { s with outstanding := more } b =
      if buffRtspSize < s.buffRtsp.length + 1 then
        { s with outstanding := more, result := some (-1) }
      else if s.buffRtsp.length + 1 = r.bytes.length then
        pol.answered (httpRecv { s with outstanding := more } b) r.code
      else httpRecv { s with outstanding := more } b := by
  have hnext := inReply_httpRecv h hout
  have hlen : (httpRecv { s with outstanding := more } b).buffRtsp.length = s.buffRtsp.length + 1 := by
    rw [buffRtsp_httpRecv]
    exact List.length_append
  have hiff := inReply_complete_iff hnext
  rw [hlen] at hiff
  rw [onText]
  split
  · rfl
  · by_cases hlast : s.buffRtsp.length + 1 = r.bytes.length
    · have hbytes : (httpRecv { s with outstanding := more } b).buffRtsp = r.bytes :=
        List.append_inj_left hnext.stream (by rw [hlen, hlast])
      rw [if_pos (hlen ▸ hiff.mpr hlast), if_pos hlast, hbytes, r.sscanfCode]
    · rw [if_neg (fun hc => hlast (hiff.mp (hlen ▸ hc))), if_neg hlast]

end ProgrammingPath.Rtsp
