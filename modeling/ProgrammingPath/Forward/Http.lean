import ProgrammingPath.Forward.Sip

/-!
# HTTP requests through the forwarder

`forward_session_handle_tcp` in `socket_forward.c` gets what was received on one side of a session and
sends it to the other. The first bytes after a connection, or after an answer, are examined: of a
request to an ONVIF service, `forward_session_handle_http` receives all of the body, rewrites the head
and sends both. This is the direction from the client; what arrives is a list of chunks, one for each
`recv`, and an empty one is a `recv` that has to be tried again.
-/

namespace ProgrammingPath.Forward

open ProgrammingPath.Lib

/-! ## The kinds of messages -/

/-- `session_types`. -/
inductive SessionType
  | none
  | httpReqGet
  | httpReqPost
  | httpReqHead
  | httpReqPut
  | httpReqDelete
  | httpReqOptions
  | httpReqTrace
  | httpReqConnect
  | httpReqPatch
  | httpRequest
  | httpResponse
  | httpReqOnvif
  | httpReqNvrNuiview
  | httpResOnvif
  | httpResNvrNuiview
  | sip
  deriving DecidableEq, Repr

def httpMethods : List (List UInt8 × SessionType) :=
  [(text "GET ", .httpReqGet), (text "POST ", .httpReqPost), (text "HEAD ", .httpReqHead),
    (text "PUT ", .httpReqPut), (text "DELETE ", .httpReqDelete), (text "OPTIONS ", .httpReqOptions),
    (text "TRACE ", .httpReqTrace), (text "CONNECT ", .httpReqConnect), (text "PATCH ", .httpReqPatch)]

/-- `buff_parse_http_req_gettype`. -/
def httpReqGettype (mem : List UInt8) : SessionType :=
  match httpMethods.find? fun method => decide (method.1 <+: mem) with
  | some method => method.2
  | none => .none

/-- `buff_parse_ishttpresponse`. -/
def isHttpResponse (mem : List UInt8) : Bool := startsCI (text "HTTP/") mem

/-- A text that `strstr` finds among the first `len` bytes. -/
def strstrBefore (needle mem : List UInt8) (len : Nat) : Bool :=
  (indexOf needle (cstr mem)).any (· < len)

/-- `buff_parse_is_onvif_request`. -/
def isOnvifRequest (mem : List UInt8) (len : Nat) : Bool := strstrBefore (text "/onvif/") mem len

/-- `buff_parse_is_nvr_nuiview_request`. -/
def isNvrNuiviewRequest (mem : List UInt8) (len : Nat) : Bool :=
  strstrBefore (text "/cgi-bin/main-cgi") mem len

/-! ## Receiving -/

/-- The memory of a buffer after `sock_stream_recv` has put a chunk at `pos`. -/
def recvAt (mem : List UInt8) (pos : Nat) (chunk : List UInt8) : List UInt8 :=
  mem.take pos ++ (chunk ++ mem.drop (pos + chunk.length))

/-- What is there when the head is complete: its length (`none` if the connection ended first), the
buffer, and the chunks that are still to come. -/
structure HeadRecv where
  headlen : Option Nat
  mem : List UInt8
  pos : Nat
  chunks : List (List UInt8)

def recvHead : List (List UInt8) → List UInt8 → Nat → HeadRecv
  | [], mem, pos => ⟨heardGetlength (mem.take pos), mem, pos, []⟩
  | c :: cs, mem, pos =>
    match heardGetlength (mem.take pos) with
    | some headlen => ⟨some headlen, mem, pos, c :: cs⟩
    | none => recvHead cs (recvAt mem pos c) (pos + c.length)

/-- `socket_recv`: exactly so many bytes; `none` if the connection ends before. -/
def socketRecv : List (List UInt8) → Nat → Option (List UInt8 × List (List UInt8))
  | chunks, 0 => some ([], chunks)
  | [], _ + 1 => none
  | c :: cs, n + 1 =>
    if c.length ≤ n + 1 then (socketRecv cs (n + 1 - c.length)).map fun r => (c ++ r.1, r.2)
    else some (c.take (n + 1), c.drop (n + 1) :: cs)

/-! ## The handlers -/

/-- What does not change in a session: `sub_filter_forwardfromsrc`, and what the handler for SIP
needs. -/
structure TcpConfig where
  fromsrc : List SubFilter
  sip : SipSession

/-- `streamin` between two calls; `mem` is the memory of its buffer. -/
structure TcpStream where
  stype : SessionType
  isfirst : Bool
  mem : List UInt8

/-- What a handler leaves: the bytes it has sent, and `streamin`. -/
structure HttpOut where
  sent : List UInt8
  stype : SessionType
  mem : List UInt8
  pos : Nat
  chunks : List (List UInt8)

/-- `streamin->buff.data[streamin->buff.pos] = 0`. -/
def terminate (mem : List UInt8) (pos : Nat) : List UInt8 := mem.take pos ++ 0 :: mem.drop (pos + 1)

/-- A head with a body of `n` bytes. The buffer for the body has one byte more; `none` when there is
more than that behind the head. -/
def handleContent (cfg : TcpConfig) (stype : SessionType) (r : HeadRecv) (headlen n : Nat) :
    Option HttpOut :=
  let content := (r.mem.drop headlen).take (r.pos - headlen)
  let mem := terminate r.mem headlen
  if n + 1 < content.length then none
  else if n < content.length then some ⟨[], stype, mem, headlen, r.chunks⟩
  else
    match socketRecv r.chunks (n - content.length) with
    | some (more, chunks) =>
      some ⟨stringReplace cfg.fromsrc mem headlen ++ (content ++ more), stype, mem, headlen, chunks⟩
    | none => some ⟨[], stype, mem, headlen, []⟩

/-- `forward_session_handle_http`, where `streamin` is `sforward_src`. -/
def handleHttp (cfg : TcpConfig) (stype : SessionType) (mem : List UInt8) (pos : Nat)
    (chunks : List (List UInt8)) : Option HttpOut :=
  let r := recvHead chunks mem pos
  match r.headlen with
  | none => some ⟨[], stype, r.mem, r.pos, r.chunks⟩
  | some headlen =>
    let contentLength := headGetContentLength r.mem headlen
    let stype := if isOnvifRequest r.mem r.pos then .httpReqOnvif else stype
    let stype := if isNvrNuiviewRequest r.mem r.pos then .httpReqNvrNuiview else stype
    if stype ∈ [.httpReqOnvif, .httpReqNvrNuiview, .httpResOnvif, .httpResNvrNuiview] then
      if 0 < contentLength then handleContent cfg stype r headlen contentLength.toNat
      else some ⟨stringReplace cfg.fromsrc r.mem r.pos, stype, r.mem, 0, r.chunks⟩
    else some ⟨[], stype, r.mem, r.pos, r.chunks⟩

/-- The type that the first bytes give a stream. -/
def examinedType (stype : SessionType) (mem : List UInt8) : SessionType :=
  if isHttpResponse mem then .httpResponse
  else if httpReqGettype mem ≠ .none then .httpRequest
  else stype

/-- What the handler for SIP makes of the type. -/
def sipType (stype : SessionType) (mem : List UInt8) : SessionType :=
  if !startsCI (text "SIP/2.0 ") mem && startsCI (text "REGISTER") mem then .sip else stype

/-- The session as the handler for SIP sees it; the buffer of `streamout` is always empty. -/
def TcpConfig.sipSession (cfg : TcpConfig) (stype : SessionType) : SipSession :=
  { cfg.sip with registered := decide (stype ≠ .none), outBuff := [] }

/-- `forward_session_handle_http`, if the first bytes are those of HTTP. -/
def handleFirst (cfg : TcpConfig) (stype : SessionType) (mem : List UInt8) (pos : Nat)
    (chunks : List (List UInt8)) : Option HttpOut :=
  if examinedType stype mem = .httpResponse ∨ examinedType stype mem = .httpRequest then
    handleHttp cfg (examinedType stype mem) mem pos chunks
  else some ⟨[], examinedType stype mem, mem, pos, chunks⟩

/-- `forward_session_handle_tcp` for the `pos` bytes in the buffer of `streamin`: what is sent to the
device, the stream, and the chunks that are still to come. -/
def handleTcp (cfg : TcpConfig) (s : TcpStream) (pos : Nat) (chunks : List (List UInt8)) :
    Option (List UInt8 × TcpStream × List (List UInt8)) :=
  if s.isfirst then some (s.mem.take pos, s, chunks)
  else do
    let r ← handleFirst cfg s.stype s.mem pos chunks
    let mem := terminate r.mem r.pos
    if (indexOf (text "SIP") (cstr mem)).isSome then
      match ← handleSip (cfg.sipSession r.stype) mem r.pos with
      | .refuse _ => some (r.sent, ⟨r.stype, true, mem⟩, r.chunks)
      | .forward out => some (r.sent ++ out, ⟨sipType r.stype mem, true, mem⟩, r.chunks)
    else some (r.sent ++ mem.take r.pos, ⟨r.stype, true, mem⟩, r.chunks)

/-- The loop of the thread, as long as something arrives from the client. A turn takes at least one
chunk, so `fuel` of them are enough. -/
def tcpLoop (cfg : TcpConfig) : Nat → TcpStream → List (List UInt8) → Option (List UInt8)
  | 0, _, _ => some []
  | _ + 1, _, [] => some []
  | fuel + 1, s, c :: cs => do
    let (sent, s, cs) ← handleTcp cfg { s with mem := recvAt s.mem 0 c } c.length cs
    let more ← tcpLoop cfg fuel s cs
    some (sent ++ more)

/-- What is sent to the device when these chunks arrive. -/
def tcpRelay (cfg : TcpConfig) (s : TcpStream) (chunks : List (List UInt8)) : Option (List UInt8) :=
  tcpLoop cfg chunks.length s chunks

/-! ## Requests -/

/-- A request with a body to an ONVIF service. -/
structure OnvifRequest extends Message where
  method : ∃ method ∈ httpMethods, method.1 <+: toMessageText.head
  onvif : text "/onvif/" <:+: toMessageText.head
  body_ne : body ≠ []

theorem httpReqGettype_ne_none {mem : List UInt8} (h : ∃ method ∈ httpMethods, method.1 <+: mem) :
    httpReqGettype mem ≠ .none := by
  obtain ⟨method, hmethod, hpre⟩ := h
  rw [httpReqGettype]
  split
  · next found hfound =>
    have htypes : ∀ method ∈ httpMethods, method.2 ≠ .none := by decide +kernel
    exact htypes found (List.mem_of_find?_eq_some hfound)
  · next hnone =>
    rw [List.find?_eq_none] at hnone
    exact absurd (decide_eq_true hpre) (hnone method hmethod)

theorem strstrBefore_of_infix {needle l : List UInt8} (hne : needle ≠ []) (h : needle <:+: l)
    (hnul : 0 ∉ l) {len : Nat} (hlen : l.length ≤ len) (rest : List UInt8) :
    strstrBefore needle (l ++ rest) len = true := by
  obtain ⟨k, hk, hindex⟩ := indexOf_append_left hne h (cstr rest)
  rw [strstrBefore, cstr_append hnul, hindex, Option.any_some, decide_eq_true_iff]
  omega

theorem recvAt_zero (mem chunk : List UInt8) : recvAt mem 0 chunk = chunk ++ mem.drop chunk.length := by
  rw [recvAt, List.take_zero, List.nil_append, Nat.zero_add]

theorem terminate_append (l rest : List UInt8) :
    ∃ behind, terminate (l ++ rest) l.length = l ++ 0 :: behind :=
  ⟨_, by rw [terminate, List.take_left]⟩

/-- All the bytes of the chunks. -/
theorem socketRecv_flatten (chunks : List (List UInt8)) :
    ∃ left, socketRecv chunks chunks.flatten.length = some (chunks.flatten, left) := by
  induction chunks with
  | nil => exact ⟨[], rfl⟩
  | cons c cs ih =>
    obtain ⟨left, hleft⟩ := ih
    rw [List.flatten_cons, List.length_append]
    cases hn : c.length + cs.flatten.length with
    | zero =>
      have hnil : c ++ cs.flatten = [] := by
        apply List.eq_nil_of_length_eq_zero
        rw [List.length_append, hn]
      exact ⟨c :: cs, by rw [socketRecv, hnil]⟩
    | succ n =>
      refine ⟨left, ?_⟩
      rw [socketRecv, if_pos (by omega), ← hn, Nat.add_sub_cancel_left, hleft]
      rfl

namespace OnvifRequest

variable (m : OnvifRequest)

/-- The body is received, and the rewritten head is sent with it; the buffer still has the head. -/
theorem handleFirst_eq (cfg : TcpConfig) (stype : SessionType) {part : List UInt8}
    {chunks : List (List UInt8)} (hbody : part ++ chunks.flatten = m.body) (behind : List UInt8) :
    ∃ stype' left behind', stype' ≠ .none ∧
      handleFirst cfg stype (m.head ++ (part ++ behind)) (m.head ++ part).length chunks =
        some ⟨replaced cfg.fromsrc m.head ++ m.body, stype', m.head ++ 0 :: behind', m.head.length,
          left⟩ := by
  have hmem : m.head ++ (part ++ behind) = (m.head ++ part) ++ behind := (List.append_assoc _ _ _).symm
  have hpart : part <+: m.body := ⟨_, hbody⟩
  have hhttp : examinedType stype (m.head ++ (part ++ behind)) = .httpResponse ∨
      examinedType stype (m.head ++ (part ++ behind)) = .httpRequest := by
    obtain ⟨method, hmethod, hpre⟩ := m.method
    rw [examinedType]
    split
    · exact .inl rfl
    · rw [if_pos (httpReqGettype_ne_none ⟨method, hmethod, hpre.trans (List.prefix_append _ _)⟩)]
      exact .inr rfl
  have hrecv : recvHead chunks (m.head ++ (part ++ behind)) (m.head ++ part).length =
      ⟨some m.head.length, m.head ++ (part ++ behind), (m.head ++ part).length, chunks⟩ := by
    have hhead : heardGetlength ((m.head ++ (part ++ behind)).take (m.head ++ part).length) =
        some m.head.length := by rw [hmem, List.take_left, m.heardGetlength_part hpart]
    cases chunks with
    | nil => rw [recvHead, hhead]
    | cons c cs => rw [recvHead, hhead]
  have honvif : isOnvifRequest (m.head ++ (part ++ behind)) (m.head ++ part).length = true :=
    strstrBefore_of_infix (by decide +kernel) m.onvif m.nul_head (by simp) _
  have hcontent : ((m.head ++ (part ++ behind)).drop m.head.length).take
      ((m.head ++ part).length - m.head.length) = part := by
    rw [List.drop_left, List.length_append, Nat.add_sub_cancel_left, List.take_left]
  have hlength : m.body.length = part.length + chunks.flatten.length := by
    rw [← hbody, List.length_append]
  obtain ⟨left, hleft⟩ := socketRecv_flatten chunks
  obtain ⟨behind', hbehind'⟩ := terminate_append m.head (part ++ behind)
  have hreplace : stringReplace cfg.fromsrc (m.head ++ 0 :: behind') m.head.length =
      replaced cfg.fromsrc m.head := stringReplace_terminated (without_nul _) _ _
  have hpos : 0 < m.body.length := List.length_pos_iff.mpr m.body_ne
  have hsent : ∀ stype', handleContent cfg stype'
      ⟨some m.head.length, m.head ++ (part ++ behind), (m.head ++ part).length, chunks⟩ m.head.length
      m.body.length = some ⟨replaced cfg.fromsrc m.head ++ m.body, stype', m.head ++ 0 :: behind',
        m.head.length, left⟩ := by
    intro stype'
    have hmore : m.body.length - part.length = chunks.flatten.length := by omega
    simp only [handleContent, hcontent, hbehind', hmore, hleft, hreplace, hbody]
    rw [if_neg (by omega), if_neg (by omega)]
  rw [handleFirst, if_pos hhttp, handleHttp, hrecv]
  simp only [honvif, if_true, m.headGetContentLength_head, Int.natCast_pos, hpos, Int.toNat_natCast,
    hsent]
  split
  · exact ⟨.httpReqNvrNuiview, left, behind', by decide, by rw [if_pos (by decide)]⟩
  · exact ⟨.httpReqOnvif, left, behind', by decide, by rw [if_pos (by decide)]⟩

/-- The first call sends something more. -/
theorem handleTcp_first (cfg : TcpConfig) {s : TcpStream} (hfirst : s.isfirst = false)
    {part : List UInt8} {chunks : List (List UInt8)} (hbody : part ++ chunks.flatten = m.body)
    {behind : List UInt8} (hmem : s.mem = m.head ++ (part ++ behind)) :
    ∃ extra s' left, extra ≠ [] ∧ handleTcp cfg s (m.head ++ part).length chunks =
      some (replaced cfg.fromsrc m.head ++ m.body ++ extra, s', left) := by
  obtain ⟨stype', left, behind', hstype', hhandle⟩ := m.handleFirst_eq cfg s.stype hbody behind
  obtain ⟨behind'', hmem'⟩ := terminate_append m.head (0 :: behind')
  have hne : ∀ lines : List (List UInt8), lines ≠ [] → unlines lines ≠ [] := by
    intro lines hlines hnil
    have hlen := length_le_unlines lines
    rw [hnil] at hlen
    exact hlines (List.eq_nil_of_length_eq_zero (Nat.le_zero.mp hlen))
  have hlines : m.lines ≠ [] := by simp [MessageText.lines]
  rw [← hmem] at hhandle
  rw [handleTcp, hfirst]
  simp only [Bool.false_eq_true, if_false, hhandle, Option.bind_eq_bind, Option.bind_some, hmem']
  split
  · -- the head is taken for a message of SIP
    have hregistered : refused (cfg.sipSession stype') (m.head ++ 0 :: behind'') = false := by
      simp [refused, TcpConfig.sipSession, hstype']
    rw [handleSip_head _ m.toMessage _ hregistered]
    refine ⟨_, _, left, ?_, rfl⟩
    apply hne
    rwa [ne_eq, List.map_eq_nil_iff]
  · refine ⟨_, _, left, ?_, rfl⟩
    rw [List.take_left]
    exact hne _ hlines

end OnvifRequest

/-- What is not examined is sent as it is. -/
theorem tcpLoop_raw (cfg : TcpConfig) {s : TcpStream} (hfirst : s.isfirst = true)
    {chunks : List (List UInt8)} {fuel : Nat} (hfuel : chunks.length ≤ fuel) :
    tcpLoop cfg fuel s chunks = some chunks.flatten := by
  induction chunks generalizing fuel s with
  | nil => cases fuel <;> rfl
  | cons c cs ih =>
    cases fuel with
    | zero => cases hfuel
    | succ fuel =>
      have hturn : handleTcp cfg { s with mem := recvAt s.mem 0 c } c.length cs =
          some (c, { s with mem := recvAt s.mem 0 c }, cs) := by
        rw [handleTcp, if_pos hfirst]
        show some ((recvAt s.mem 0 c).take c.length, _) = _
        rw [recvAt_zero, List.take_left]
      rw [tcpLoop, hturn]
      show (tcpLoop cfg fuel _ cs).bind _ = _
      have hmore := ih (s := { s with mem := recvAt s.mem 0 c }) hfirst (Nat.le_of_succ_le_succ hfuel)
      rw [hmore]
      rfl

/-- A request with a body of two bytes. -/
def onvifText : MessageText where
  before := [text "POST /onvif/a HTTP/1.1\r"]
  key := contentLengthKey
  value := text " 2\r"
  after := [text "\r"]
  body := text "ab"

def onvifRequest : OnvifRequest where
  toMessageText := onvifText
  line := by unfold IsLine; decide +kernel
  complete := by decide +kernel
  key_eq := rfl
  value_eq := by decide +kernel
  only := by decide +kernel
  method := ⟨(text "POST ", .httpReqPost), by decide +kernel, by decide +kernel⟩
  onvif := by decide +kernel
  body_ne := by decide +kernel

def plainConfig : TcpConfig := ⟨[], ⟨false, ⟨1, 1⟩, ⟨2, 2⟩, ⟨3, 3⟩, ⟨4, 4⟩, [], []⟩⟩

end ProgrammingPath.Forward
