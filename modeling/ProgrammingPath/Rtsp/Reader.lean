import ProgrammingPath.Lib.Memory

/-!
# The two readers of the RTSP client

On the connection of an RTSP session text responses and interleaved frames (`$`, a channel, a length
and so many bytes) follow one another. `RTSPClient_RTSPRecv` reads until a response is complete and
hands the frames before it to `callbk_rtp`; the loop in `RTSPClient_StreamRecv` reads on for ever.
Both are the same resumable reader but for three places, which are the parameters of `readerStep`:
when a frame is complete, what four bytes that are neither `RTSP` nor `$...` lead to, and what a
response leads to.
-/

namespace ProgrammingPath.Rtsp

open ProgrammingPath.Lib

/-! ## The text of a response -/

/-- `string_http_heard_getlength`, from offset `i` on: the length of the head with the blank line that
ends it, 0 if there is none. -/
def httpHeardGetlengthFrom : Nat → List UInt8 → Nat
  | _, [] => 0
  | i, 10 :: 10 :: _ => i + 2
  | i, 10 :: 13 :: 10 :: _ => i + 3
  | i, 13 :: 10 :: 10 :: _ => i + 3
  | i, 13 :: 10 :: 13 :: 10 :: _ => i + 4
  | i, _ :: rest => httpHeardGetlengthFrom (i + 1) rest

def httpHeardGetlength (buf : List UInt8) : Nat := httpHeardGetlengthFrom 0 buf

def isDigit (b : UInt8) : Bool := 48 ≤ b && b ≤ 57

/-- White space as `atoi` and `sscanf` skip it. -/
def isSpace (b : UInt8) : Bool := b == 32 || (9 ≤ b && b ≤ 13)

/-- The value of decimal digits. -/
def decimal (digits : List UInt8) : Nat := digits.foldl (fun n d => 10 * n + (d.toNat - 48)) 0

/-- A decimal number as `%d` and `atoi` read it; `none` when there is none. -/
def scanInt (text : List UInt8) : Option Int :=
  match text.dropWhile isSpace with
  | 45 :: rest =>
    if (rest.takeWhile isDigit) = [] then none else some (-decimal (rest.takeWhile isDigit))
  | 43 :: rest =>
    if (rest.takeWhile isDigit) = [] then none else some (decimal (rest.takeWhile isDigit))
  | rest =>
    if (rest.takeWhile isDigit) = [] then none else some (decimal (rest.takeWhile isDigit))

/-- `"Content-Length:"`. -/
def contentLengthKey : List UInt8 :=
  [67, 111, 110, 116, 101, 110, 116, 45, 76, 101, 110, 103, 116, 104, 58]

/-- What `atoi` makes of a number: `strtol` stops at the ends of `long`, and `int` has the low half of it. -/
def toInt (v : Int) : Int := Int.bmod (max (-9223372036854775808) (min v 9223372036854775807)) 4294967296

/-- The loop of `string_http_head_get_content_length`: line after line, the last one that has the key
counts, as `conv` takes its number. `fuel` bounds the number of lines. -/
def contentLengthLoop (conv : Int → Int) : Nat → Int → List UInt8 → Int
  | 0, found, _ => found
  | fuel + 1, found, text =>
    if text = [] then found
    else
      let found :=
        if contentLengthKey.isPrefixOf text then conv ((scanInt (text.drop 15)).getD 0) else found
      match text.dropWhile fun b => b != 10 && b != 0 with
      | 10 :: 13 :: 10 :: _ => found
      | 10 :: rest => contentLengthLoop conv fuel found rest
      | _ => found

/-- `string_http_head_get_content_length`, -1 if the head does not tell. -/
def httpHeadGetContentLength (head : List UInt8) : Int :=
  contentLengthLoop toInt (head.length + 1) (-1) head

/-- `sscanf(data, "%[^ ] %d ", pref, &code)` with `code = -1` before. -/
def sscanfCode (text : List UInt8) : Int :=
  let text := text.takeWhile (· != 0)
  if text.takeWhile (· != 32) = [] then -1
  else (scanInt (text.dropWhile (· != 32))).getD (-1)

/-! ### Where a head ends -/

theorem httpHeardGetlengthFrom_bounds (i : Nat) (l : List UInt8) :
    httpHeardGetlengthFrom i l = 0 ∨ i + 2 ≤ httpHeardGetlengthFrom i l := by
  fun_induction httpHeardGetlengthFrom i l with
  | case1 => exact .inl rfl
  | case2 | case3 | case4 | case5 => right; omega
  | case6 i b rest _ _ _ _ ih => omega

theorem httpHeardGetlengthFrom_le (i : Nat) (l : List UInt8) : httpHeardGetlengthFrom i l ≤ i + l.length := by
  fun_induction httpHeardGetlengthFrom i l with
  | case1 => exact Nat.zero_le _
  | case2 | case3 | case4 | case5 =>
    simp only [List.length_cons]
    omega
  | case6 i b rest _ _ _ _ ih =>
    rw [List.length_cons]
    omega

/-- A head that is complete is so without the bytes behind it. -/
theorem httpHeardGetlengthFrom_append {i k : Nat} {l r : List UInt8}
    (h : httpHeardGetlengthFrom i (l ++ r) = k) (hpos : 0 < k) (hk : k ≤ i + l.length) :
    httpHeardGetlengthFrom i l = k := by
  fun_induction httpHeardGetlengthFrom i l with
  | case1 i =>
    have hbounds := httpHeardGetlengthFrom_bounds i r
    rw [List.nil_append] at h
    rw [List.length_nil] at hk
    omega
  | case2 | case3 | case4 | case5 => exact h
  | case6 i b rest h1 h2 h3 h4 ih =>
    rw [List.cons_append, httpHeardGetlengthFrom.eq_def] at h
    rw [List.length_cons] at hk
    split at h
    · next heq => cases heq
    · next heq =>
      match rest with
      | [] =>
        rw [List.length_nil] at hk
        omega
      | _ :: _ =>
        cases heq
        exact (h1 _ rfl rfl).elim
    · next heq =>
      match rest with
      | [] | [_] =>
        simp only [List.length_cons, List.length_nil] at hk
        omega
      | _ :: _ :: _ =>
        cases heq
        exact (h2 _ rfl rfl).elim
    · next heq =>
      match rest with
      | [] | [_] =>
        simp only [List.length_cons, List.length_nil] at hk
        omega
      | _ :: _ :: _ =>
        cases heq
        exact (h3 _ rfl rfl).elim
    · next heq =>
      match rest with
      | [] | [_] | [_, _] =>
        simp only [List.length_cons, List.length_nil] at hk
        omega
      | _ :: _ :: _ :: _ =>
        cases heq
        exact (h4 _ rfl rfl).elim
    · next heq =>
      cases heq
      exact ih h (by omega)

/-- What is behind a head that is complete does not matter. -/
theorem httpHeardGetlengthFrom_append_right {i : Nat} {l : List UInt8} (r : List UInt8)
    (h : httpHeardGetlengthFrom i l ≠ 0) : httpHeardGetlengthFrom i (l ++ r) = httpHeardGetlengthFrom i l := by
  fun_induction httpHeardGetlengthFrom i l with
  | case1 => exact absurd rfl h
  | case2 | case3 | case4 | case5 => rfl
  | case6 i b rest h1 h2 h3 h4 ih =>
    have hlen : 2 ≤ rest.length := by
      have hbounds := httpHeardGetlengthFrom_bounds (i + 1) rest
      have hle := httpHeardGetlengthFrom_le (i + 1) rest
      omega
    rw [List.cons_append, httpHeardGetlengthFrom.eq_def]
    split
    · next heq => cases heq
    · next heq =>
      match rest with
      | [] => exact absurd hlen (by decide)
      | _ :: _ =>
        cases heq
        exact (h1 _ rfl rfl).elim
    · next heq =>
      match rest with
      | [] | [_] => simp at hlen
      | _ :: _ :: _ =>
        cases heq
        exact (h2 _ rfl rfl).elim
    · next heq =>
      match rest with
      | [] | [_] => simp at hlen
      | _ :: _ :: _ =>
        cases heq
        exact (h3 _ rfl rfl).elim
    · next heq =>
      match rest with
      | [] | [_] => simp at hlen
      | [_, _] =>
        cases heq
        exact absurd rfl h
      | _ :: _ :: _ :: _ =>
        cases heq
        exact (h4 _ rfl rfl).elim
    · next heq =>
      cases heq
      exact ih h

/-! ## The reader -/

/-- `rflag`: a head of four bytes, the text of a response, or the bytes of a frame. -/
inductive Flag
  | head
  | text
  | frame
  deriving DecidableEq, Repr

/-- A call of `callbk_rtp`: channel and length, the bytes at the pointer, and how many of them `recv`
has put there for this frame. -/
structure Call where
  channel : UInt8
  len : Nat
  data : List UInt8
  received : Nat
  deriving DecidableEq, Repr

/-- The socket and the variables of a reader. `buffRtsp` is what was written to the buffer of that
name, `buffRtcpRtp` the memory of the other one, with the bytes of earlier frames still in it. -/
structure Reader where
  outstanding : List UInt8
  rflag : Flag
  packetHead : List UInt8
  rtspifChannel : UInt8
  rtspifLen : Nat
  buffRtcpRtp : Mem
  wpos : Nat
  buffRtsp : List UInt8
  headLength : Nat
  contentLength : Int
  calls : List Call
  result : Option Int

/-- A reader at its start. -/
def Reader.init (buffRtcpRtp : Mem) (outstanding : List UInt8) : Reader :=
  ⟨outstanding, .head, [], 0, 0, buffRtcpRtp, 0, [], 0, 0, [], none⟩

/-- One turn of the loop. Either there is nothing to read (`poll` times out, or `recv` fails with
`EAGAIN` or `EINTR`), or `recv` returns up to `n + 1` of the bytes that were asked for, or the
connection is at its end. -/
inductive Turn
  | idle
  | data (n : Nat)
  | closed
  deriving DecidableEq, Repr

/-- The sizes of the two buffers. -/
def buffRtspSize : Nat := 2048

def buffRtcpRtpSize : Nat := 1024 * 200

/-- What `memcpy` and `ntohs` make of the last two bytes of a head. -/
def ntohs (hi lo : UInt8) : Nat := hi.toNat * 256 + lo.toNat

/-- `"RTSP"`. -/
def rtspMagic : List UInt8 := [82, 84, 83, 80]

/-- The three places where the readers differ. -/
structure Policy where
  /-- whether a frame is complete: `wpos`, what the last `recv` returned, and the length -/
  complete : Nat → Nat → Nat → Bool
  unknown : Reader → Reader
  answered : Reader → Int → Reader

/-- A fourth byte makes the head complete. -/
def onHead (pol : Policy) (s : Reader) (b : UInt8) : Reader :=
  let head := s.packetHead ++ [b]
  if head.length = 4 then
    let s := { s with packetHead := [] }
    if head = rtspMagic then
      { s with rflag := .text, buffRtsp := head, headLength := 0, contentLength := 0 }
    else if head.headD 0 = 36 then
      let s := { s with
        rflag := .frame, rtspifChannel := head.getD 1 0
        rtspifLen := ntohs (head.getD 2 0) (head.getD 3 0), wpos := 0 }
      if buffRtcpRtpSize < s.rtspifLen then { s with result := some (-1) } else s
    else pol.unknown s
  else
    { s with packetHead := head }

/-- `_http_recv` with a byte that arrived and fits into the buffer. -/
def httpRecv (s : Reader) (b : UInt8) : Reader :=
  let buff := s.buffRtsp ++ [b]
  if s.headLength = 0 then
    let headLength := httpHeardGetlength buff
    let contentLength :=
      if headLength ≠ 0 then httpHeadGetContentLength (buff.take headLength) else s.contentLength
    { s with
      buffRtsp := buff
      headLength := headLength
      contentLength := if contentLength = -1 then 0 else contentLength }
  else
    { s with buffRtsp := buff }

/-- A byte of a response: `_http_recv`, and the test whether it was the last one. -/
def onText (pol : Policy) (s : Reader) (b : UInt8) : Reader :=
  if buffRtspSize < s.buffRtsp.length + 1 then
    { s with result := some (-1) }
  else if (httpRecv s b).headLength ≠ 0 ∧
      (httpRecv s b).contentLength + (httpRecv s b).headLength = (httpRecv s b).buffRtsp.length then
    pol.answered (httpRecv s b) (sscanfCode (httpRecv s b).buffRtsp)
  else
    httpRecv s b

/-- `recv` has put bytes behind those of the frame that were there. -/
def onFrame (pol : Policy) (s : Reader) (bs : List UInt8) : Reader :=
  let s := { s with
    buffRtcpRtp := s.buffRtcpRtp.write s.wpos bs, wpos := s.wpos + bs.length }
  if pol.complete s.wpos bs.length s.rtspifLen then
    { s with
      calls := s.calls ++
        [⟨s.rtspifChannel, s.rtspifLen, s.buffRtcpRtp.bytes 0 s.rtspifLen, s.wpos⟩]
      wpos := 0
      rflag := .head }
  else s

/-- One turn of the loop of a reader. -/
def readerStep (pol : Policy) (s : Reader) (turn : Turn) : Reader :=
  if s.result ≠ none then s
  else
    match turn with
    | .idle => s
    | .closed => { s with result := some (-1) }
    | .data n =>
      match s.outstanding with
      | [] => s
      | b :: rest =>
        match s.rflag with
        | .head => onHead pol { s with outstanding := rest } b
        | .text => onText pol { s with outstanding := rest } b
        | .frame =>
          let asked := s.rtspifLen - s.wpos
          -- `recv` of no bytes returns 0, which is taken for the end of the connection
          if asked = 0 then { s with result := some (-1) }
          else
            let bs := ((b :: rest).take asked).take (n + 1)
            onFrame pol { s with outstanding := (b :: rest).drop bs.length } bs

section

variable {pol : Policy} {s : Reader}

/-- A reader that has returned stays as it is. -/
theorem readerStep_of_result (h : s.result ≠ none) (turn : Turn) : readerStep pol s turn = s := by
  simp only [readerStep, if_pos h]

theorem readerStep_idle : readerStep pol s .idle = s := by
  simp only [readerStep, ite_self]

theorem readerStep_closed (h : s.result = none) :
    readerStep pol s .closed = { s with result := some (-1) } := by
  simp only [readerStep, h, ne_eq, not_true_eq_false, if_false]

theorem readerStep_nil (n : Nat) (hout : s.outstanding = []) : readerStep pol s (.data n) = s := by
  simp only [readerStep, hout, ite_self]

theorem readerStep_head {b : UInt8} {rest : List UInt8} (n : Nat) (h : s.result = none)
    (hout : s.outstanding = b :: rest) (hflag : s.rflag = .head) :
    readerStep pol s (.data n) = onHead pol { s with outstanding := rest } b := by
  simp only [readerStep, h, ne_eq, not_true_eq_false, if_false, hout, hflag]

theorem readerStep_text {b : UInt8} {rest : List UInt8} (n : Nat) (h : s.result = none)
    (hout : s.outstanding = b :: rest) (hflag : s.rflag = .text) :
    readerStep pol s (.data n) = onText pol { s with outstanding := rest } b := by
  simp only [readerStep, h, ne_eq, not_true_eq_false, if_false, hout, hflag]

theorem readerStep_frame (n : Nat) (h : s.result = none) (hout : s.outstanding ≠ [])
    (hflag : s.rflag = .frame) :
    readerStep pol s (.data n) =
      if s.rtspifLen - s.wpos = 0 then { s with result := some (-1) }
      else
        onFrame pol
          { s with
            outstanding := s.outstanding.drop
              ((s.outstanding.take (s.rtspifLen - s.wpos)).take (n + 1)).length }
          ((s.outstanding.take (s.rtspifLen - s.wpos)).take (n + 1)) := by
  obtain ⟨b, rest, hcons⟩ := List.exists_cons_of_ne_nil hout
  simp only [readerStep, h, ne_eq, not_true_eq_false, if_false, hcons, hflag]

end

/-- `RTSPClient_RTSPRecv`: a frame is taken to be complete when `wpos` is what the last `recv`
returned. -/
def rtspRecv : Policy where
  complete wpos recvRet _ := wpos == recvRet
  unknown s := { s with result := some 0 }
  answered s code := { s with result := some code }

/-- `RTSPClient_StreamRecv`: `wpos` is compared with the length. Unknown bytes are passed over, and
only a response other than 200 ends the loop. -/
def streamRecv : Policy where
  complete wpos _ len := wpos == len
  unknown s := s
  answered s code := if code = 200 then { s with rflag := .head } else { s with result := some 0 }

/-- The reader after the turns of the loop. -/
def readerRun (pol : Policy) (s : Reader) (turns : List Turn) : Reader :=
  turns.foldl (readerStep pol) s

end ProgrammingPath.Rtsp
