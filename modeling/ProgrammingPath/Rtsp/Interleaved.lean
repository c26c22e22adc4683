import ProgrammingPath.Rtsp.Wire

/-!
# Interleaved frames in front of a response

Which frames do the two readers find? As long as every `recv` for the bytes of a frame returns all of
them (`wholeReads`), `RTSPClient_RTSPRecv` and the loop of `RTSPClient_StreamRecv` go through the same
states, and a list of frames followed by a response leads to one call per frame and to the status
code. A `recv` that returns less leads to a call for a frame that has not arrived, which the other
reader never makes.
-/

namespace ProgrammingPath.Rtsp

open ProgrammingPath.Lib

/-! ## When frames arrive whole -/

/-- A `recv` for the bytes of a frame returns all that are missing. -/
def wholeRead (s : Reader) : Turn → Bool
  | .data n =>
    s.result != none || s.rflag != .frame || s.outstanding == [] ||
      s.rtspifLen - s.wpos ≤ min (n + 1) s.outstanding.length
  | _ => true

/-- Every `recv` for the bytes of a frame does. -/
def wholeReads (pol : Policy) : Reader → List Turn → Bool
  | _, [] => true
  | s, turn :: turns => wholeRead s turn && wholeReads pol (readerStep pol s turn) turns

theorem readerRun_cons (pol : Policy) (s : Reader) (turn : Turn) (turns : List Turn) :
    readerRun pol s (turn :: turns) = readerRun pol (readerStep pol s turn) turns := rfl

theorem readerRun_concat (pol : Policy) (s : Reader) (turns : List Turn) (turn : Turn) :
    readerRun pol s (turns ++ [turn]) = readerStep pol (readerRun pol s turns) turn :=
  List.foldl_append

/-- A reader that has returned stays as it is. -/
theorem readerRun_of_result {pol : Policy} {s : Reader} (h : s.result ≠ none) (turns : List Turn) :
    readerRun pol s turns = s := by
  induction turns with
  | nil => rfl
  | cons turn turns ih => rw [readerRun_cons, readerStep_of_result h, ih]

/-! ## The calls of a reader -/

variable {pol : Policy} {s t : Reader}

/-- A frame that is complete is handed over. -/
theorem calls_onFrame (bs : List UInt8) :
    (onFrame pol s bs).calls =
      if pol.complete (s.wpos + bs.length) bs.length s.rtspifLen then
        s.calls ++ [⟨s.rtspifChannel, s.rtspifLen,
          (s.buffRtcpRtp.write s.wpos bs).bytes 0 s.rtspifLen, s.wpos + bs.length⟩]
      else s.calls := by
  simp only [onFrame]
  split <;> rfl

/-- A turn calls `callbk_rtp` at most once, and only for a frame that the reader takes to be
complete. -/
theorem calls_readerStep (hp : pol.Plain) (s : Reader) (turn : Turn) :
    (readerStep pol s turn).calls = s.calls ∨
      ∃ c : Call, (readerStep pol s turn).calls = s.calls ++ [c] ∧
        ∃ recvRet, pol.complete c.received recvRet c.len = true := by
  by_cases hres : s.result = none
  · cases turn with
    | idle => exact Or.inl (by rw [readerStep_idle])
    | closed => exact Or.inl (by rw [readerStep_closed hres])
    | data n =>
      cases hout : s.outstanding with
      | nil => exact Or.inl (by rw [readerStep_nil n hout])
      | cons b rest =>
        cases hflag : s.rflag with
        | head => exact Or.inl (by rw [readerStep_head n hres hout hflag, calls_onHead hp])
        | text => exact Or.inl (by rw [readerStep_text n hres hout hflag, calls_onText hp])
        | frame =>
          rw [readerStep_frame n hres (by simp [hout]) hflag]
          split
          · exact Or.inl rfl
          · rw [calls_onFrame]
            split
            · next hc => exact Or.inr ⟨_, rfl, _, hc⟩
            · exact Or.inl rfl
  · exact Or.inl (by rw [readerStep_of_result hres])

theorem calls_isPrefix (hp : pol.Plain) (s : Reader) (turns : List Turn) :
    s.calls <+: (readerRun pol s turns).calls := by
  induction turns generalizing s with
  | nil => exact List.prefix_refl _
  | cons turn turns ih =>
    refine List.IsPrefix.trans ?_ (ih (readerStep pol s turn))
    rcases calls_readerStep hp s turn with h | ⟨c, h, -⟩
    · exact h ▸ List.prefix_refl _
    · exact h ▸ List.prefix_append _ _

/-- The reader of `RTSPClient_StreamRecv` calls for complete frames only. -/
theorem received_streamRecv {s : Reader} (h : ∀ c ∈ s.calls, c.received = c.len)
    (turns : List Turn) : ∀ c ∈ (readerRun streamRecv s turns).calls, c.received = c.len := by
  induction turns generalizing s with
  | nil => exact h
  | cons turn turns ih =>
    apply ih
    intro c hc
    rcases calls_readerStep streamRecv_plain s turn with heq | ⟨d, heq, recvRet, hd⟩
    · exact h c (heq ▸ hc)
    · rw [heq, List.mem_append, List.mem_singleton] at hc
      rcases hc with hc | rfl
      · exact h c hc
      · exact beq_iff_eq.mp hd

/-! ## `RTSPClient_RTSPRecv` between two reads -/

/-- Nothing of a frame is kept between two turns. -/
def Fresh (s : Reader) : Prop := s.rflag = .frame → s.wpos = 0

theorem fresh_init (mem : Mem) (bytes : List UInt8) : Fresh (Reader.init mem bytes) := fun h => by
  cases h

theorem fresh_onHead (b : UInt8) (hflag : s.rflag = .head) : Fresh (onHead rtspRecv s b) := by
  simp only [onHead]
  split
  · split
    · exact fun h => by cases h
    · split
      · split <;> exact fun _ => rfl
      · intro h
        cases hflag.symm.trans (show s.rflag = .frame from h)
  · intro h
    cases hflag.symm.trans (show s.rflag = .frame from h)

theorem rflag_httpRecv (b : UInt8) : (httpRecv s b).rflag = s.rflag := by
  simp only [httpRecv]
  split <;> rfl

theorem rflag_onText (b : UInt8) : (onText rtspRecv s b).rflag = s.rflag := by
  rw [onText]
  split
  · rfl
  · split
    · exact rflag_httpRecv b
    · exact rflag_httpRecv b

/-- Every `recv` for a frame ends it. -/
theorem onFrame_rtspRecv (bs : List UInt8) (hwpos : s.wpos = 0) :
    onFrame rtspRecv s bs =
      { s with
        buffRtcpRtp := s.buffRtcpRtp.write 0 bs
        calls := s.calls ++ [⟨s.rtspifChannel, s.rtspifLen,
          (s.buffRtcpRtp.write 0 bs).bytes 0 s.rtspifLen, bs.length⟩]
        wpos := 0
        rflag := .head } := by
  have hcomplete : rtspRecv.complete bs.length bs.length s.rtspifLen = true := beq_self_eq_true _
  simp only [onFrame, hwpos, Nat.zero_add, hcomplete, if_true]
  rfl

/-- The call a `recv` for a frame leads to. -/
theorem readerStep_rtspRecv_frame (n : Nat) (hres : s.result = none) (hfresh : Fresh s)
    (hout : s.outstanding ≠ []) (hflag : s.rflag = .frame) (hlen : s.rtspifLen ≠ 0) :
    readerStep rtspRecv s (.data n) =
      { s with
        outstanding := s.outstanding.drop ((s.outstanding.take s.rtspifLen).take (n + 1)).length
        buffRtcpRtp := s.buffRtcpRtp.write 0 ((s.outstanding.take s.rtspifLen).take (n + 1))
        calls := s.calls ++ [⟨s.rtspifChannel, s.rtspifLen,
          (s.buffRtcpRtp.write 0 ((s.outstanding.take s.rtspifLen).take (n + 1))).bytes 0 s.rtspifLen,
          ((s.outstanding.take s.rtspifLen).take (n + 1)).length⟩]
        wpos := 0
        rflag := .head } := by
  rw [readerStep_frame n hres hout hflag, hfresh hflag, Nat.sub_zero, if_neg hlen,
    onFrame_rtspRecv _ (by rfl)]

theorem fresh_step (hfresh : Fresh s) (turn : Turn) : Fresh (readerStep rtspRecv s turn) := by
  by_cases hres : s.result = none
  · cases turn with
    | idle => rwa [readerStep_idle]
    | closed => rwa [readerStep_closed hres]
    | data n =>
      cases hout : s.outstanding with
      | nil => rwa [readerStep_nil n hout]
      | cons b rest =>
        cases hflag : s.rflag with
        | head =>
          rw [readerStep_head n hres hout hflag]
          exact fresh_onHead b hflag
        | text =>
          rw [readerStep_text n hres hout hflag]
          intro h
          rw [rflag_onText] at h
          cases hflag.symm.trans (show s.rflag = .frame from h)
        | frame =>
          have hne : s.outstanding ≠ [] := by simp [hout]
          by_cases hlen : s.rtspifLen = 0
          · rw [readerStep_frame n hres hne hflag, hlen, Nat.zero_sub, if_pos rfl]
            exact hfresh
          · rw [readerStep_rtspRecv_frame n hres hfresh hne hflag hlen]
            exact fun _ => rfl
  · rwa [readerStep_of_result hres]

/-- What a read that is not whole is. -/
theorem wholeRead_eq_false {turn : Turn} (h : wholeRead s turn = false) :
    ∃ n, turn = .data n ∧ s.result = none ∧ s.rflag = .frame ∧ s.outstanding ≠ [] ∧
      min (n + 1) s.outstanding.length < s.rtspifLen - s.wpos := by
  cases turn with
  | idle => cases h
  | closed => cases h
  | data n =>
    simp only [wholeRead, Bool.or_eq_false_iff, bne_eq_false_iff_eq, beq_eq_false_iff_ne,
      decide_eq_false_iff_not, not_le] at h
    exact ⟨n, rfl, h.1.1.1, h.1.1.2, h.1.2, h.2⟩

/-- A `recv` that returns less than the frame leads to a call for bytes that have not arrived. -/
theorem exists_call_of_short {turn : Turn} (hfresh : Fresh s) (h : wholeRead s turn = false) :
    ∃ c ∈ (readerStep rtspRecv s turn).calls, c.received ≠ c.len := by
  obtain ⟨n, rfl, hres, hflag, hout, hlt⟩ := wholeRead_eq_false h
  rw [hfresh hflag, Nat.sub_zero] at hlt
  rw [readerStep_rtspRecv_frame n hres hfresh hout hflag (by omega)]
  refine ⟨_, List.mem_append_right _ (List.mem_singleton_self _), ?_⟩
  show ((s.outstanding.take s.rtspifLen).take (n + 1)).length ≠ s.rtspifLen
  rw [List.length_take, List.length_take]
  omega

theorem exists_call_of_not_wholeReads {turns : List Turn} (hfresh : Fresh s)
    (h : wholeReads rtspRecv s turns = false) :
    ∃ c ∈ (readerRun rtspRecv s turns).calls, c.received ≠ c.len := by
  induction turns generalizing s with
  | nil => cases h
  | cons turn turns ih =>
    rw [wholeReads, Bool.and_eq_false_iff] at h
    rcases h with h | h
    · obtain ⟨c, hc, hne⟩ := exists_call_of_short hfresh h
      exact ⟨c, (calls_isPrefix rtspRecv_plain _ turns).subset hc, hne⟩
    · exact ih (fresh_step hfresh turn) h

/-! ## The same frames -/

/-- As long as `RTSPClient_RTSPRecv` goes on and frames arrive whole, the two readers do the same. -/
theorem streamRecv_eq_rtspRecv {turn : Turn} (hfresh : Fresh s) (hres : s.result = none)
    (hwhole : wholeRead s turn = true) (hnext : (readerStep rtspRecv s turn).result = none) :
    readerStep streamRecv s turn = readerStep rtspRecv s turn := by
  cases turn with
  | idle => rw [readerStep_idle, readerStep_idle]
  | closed => rw [readerStep_closed hres, readerStep_closed hres]
  | data n =>
    cases hout : s.outstanding with
    | nil => rw [readerStep_nil n hout, readerStep_nil n hout]
    | cons b rest =>
      cases hflag : s.rflag with
      | head =>
        rw [readerStep_head n hres hout hflag] at hnext ⊢
        rw [readerStep_head n hres hout hflag]
        simp only [onHead] at hnext ⊢
        split
        · next hlen =>
          rw [if_pos hlen] at hnext
          split
          · rfl
          · next hrtsp =>
            rw [if_neg hrtsp] at hnext
            split
            · rfl
            · next hdollar =>
              -- unknown bytes end `RTSPClient_RTSPRecv`
              rw [if_neg hdollar] at hnext
              cases hnext
        · rfl
      | text =>
        rw [readerStep_text n hres hout hflag] at hnext ⊢
        rw [readerStep_text n hres hout hflag]
        simp only [onText] at hnext ⊢
        split
        · rfl
        · next hfit =>
          rw [if_neg hfit] at hnext
          split
          · next hend =>
            -- and so does a response
            rw [if_pos hend] at hnext
            cases hnext
          · rfl
      | frame =>
        have hne : s.outstanding ≠ [] := by simp [hout]
        have hwpos := hfresh hflag
        by_cases hlen : s.rtspifLen = 0
        · rw [readerStep_frame n hres hne hflag, readerStep_frame n hres hne hflag, hlen,
            Nat.zero_sub, if_pos rfl, if_pos rfl]
        · have hall : ((s.outstanding.take s.rtspifLen).take (n + 1)).length = s.rtspifLen := by
            simp only [wholeRead, hres, hflag, hwpos, Nat.sub_zero, bne_self_eq_false,
              Bool.false_or, Bool.or_eq_true, beq_iff_eq, decide_eq_true_eq, hne, false_or] at hwhole
            rw [List.length_take, List.length_take]
            omega
          have hcomplete : streamRecv.complete s.rtspifLen s.rtspifLen s.rtspifLen = true :=
            beq_self_eq_true _
          rw [readerStep_rtspRecv_frame n hres hfresh hne hflag hlen,
            readerStep_frame n hres hne hflag, hwpos, Nat.sub_zero, if_neg hlen]
          simp only [onFrame, Nat.zero_add, hall, hcomplete, if_true]
          rfl

theorem streamRecv_run_eq {turns : List Turn} (hfresh : Fresh s)
    (hwhole : wholeReads rtspRecv s turns = true)
    (hnext : (readerRun rtspRecv s turns).result = none) :
    readerRun streamRecv s turns = readerRun rtspRecv s turns := by
  induction turns generalizing s with
  | nil => rfl
  | cons turn turns ih =>
    rw [wholeReads, Bool.and_eq_true] at hwhole
    have hres : s.result = none := by
      by_contra hne
      rw [readerRun_of_result hne] at hnext
      exact hne hnext
    have hmid : (readerStep rtspRecv s turn).result = none := by
      by_contra hne
      rw [readerRun_cons, readerRun_of_result hne] at hnext
      exact hne hnext
    rw [readerRun_cons, readerRun_cons, streamRecv_eq_rtspRecv hfresh hres hwhole.1 hmid]
    exact ih (fresh_step hfresh turn) hwhole.2 hnext

theorem wholeReads_concat (pol : Policy) (s : Reader) (turns : List Turn) (turn : Turn) :
    wholeReads pol s (turns ++ [turn]) =
      (wholeReads pol s turns && wholeRead (readerRun pol s turns) turn) := by
  induction turns generalizing s with
  | nil => simp [wholeReads, readerRun]
  | cons first turns ih => rw [List.cons_append, wholeReads, wholeReads, ih, Bool.and_assoc]; rfl

/-- The turn in which `RTSPClient_RTSPRecv` returns hands nothing over in either reader. -/
theorem calls_step_eq {turn : Turn} (hfresh : Fresh s) (hres : s.result = none)
    (hwhole : wholeRead s turn = true) :
    (readerStep streamRecv s turn).calls = (readerStep rtspRecv s turn).calls := by
  cases turn with
  | idle => rw [readerStep_idle, readerStep_idle]
  | closed => rw [readerStep_closed hres, readerStep_closed hres]
  | data n =>
    cases hout : s.outstanding with
    | nil => rw [readerStep_nil n hout, readerStep_nil n hout]
    | cons b rest =>
      cases hflag : s.rflag with
      | head =>
        rw [readerStep_head n hres hout hflag, readerStep_head n hres hout hflag,
          calls_onHead streamRecv_plain, calls_onHead rtspRecv_plain]
      | text =>
        rw [readerStep_text n hres hout hflag, readerStep_text n hres hout hflag,
          calls_onText streamRecv_plain, calls_onText rtspRecv_plain]
      | frame =>
        have hne : s.outstanding ≠ [] := by simp [hout]
        by_cases hlen : s.rtspifLen = 0
        · rw [readerStep_frame n hres hne hflag, readerStep_frame n hres hne hflag, hlen,
            Nat.zero_sub, if_pos rfl, if_pos rfl]
        · rw [streamRecv_eq_rtspRecv hfresh hres hwhole]
          rw [readerStep_rtspRecv_frame n hres hfresh hne hflag hlen]
          exact hres

theorem fresh_run (hfresh : Fresh s) (turns : List Turn) : Fresh (readerRun rtspRecv s turns) := by
  induction turns generalizing s with
  | nil => exact hfresh
  | cons turn turns ih => exact ih (fresh_step hfresh turn)

/-- The readers find the same frames, up to the turn in which `RTSPClient_RTSPRecv` returns, exactly
when every frame arrives whole. -/
theorem calls_eq_iff_wholeReads (mem : Mem) (bytes : List UInt8) (turns : List Turn)
    (hrun : (readerRun rtspRecv (Reader.init mem bytes) turns.dropLast).result = none) :
    (readerRun rtspRecv (Reader.init mem bytes) turns).calls =
        (readerRun streamRecv (Reader.init mem bytes) turns).calls ↔
      wholeReads rtspRecv (Reader.init mem bytes) turns = true := by
  constructor
  · intro heq
    by_contra hne
    obtain ⟨c, hc, hrec⟩ :=
      exists_call_of_not_wholeReads (fresh_init mem bytes) (Bool.not_eq_true _ ▸ hne)
    rw [heq] at hc
    exact hrec (received_streamRecv (by simp [Reader.init]) turns c hc)
  · intro hwhole
    rcases List.eq_nil_or_concat turns with rfl | ⟨earlier, turn, rfl⟩
    · rfl
    · rw [List.concat_eq_append] at hrun hwhole ⊢
      rw [List.dropLast_concat] at hrun
      rw [wholeReads_concat, Bool.and_eq_true] at hwhole
      rw [readerRun_concat, readerRun_concat, streamRecv_run_eq (fresh_init mem bytes) hwhole.1 hrun]
      exact (calls_step_eq (fresh_run (fresh_init mem bytes) earlier) hrun hwhole.2).symm

/-! ## Frames and responses on the wire -/

/-- An interleaved frame: its length is not 0 and has 16 bits, which fit into the buffer. -/
structure Frame where
  channel : UInt8
  payload : List UInt8
  length_pos : 0 < payload.length
  length_lt : payload.length < 65536

def Frame.bytes (f : Frame) : List UInt8 :=
  36 :: f.channel :: UInt8.ofNat (f.payload.length / 256) :: UInt8.ofNat (f.payload.length % 256) ::
    f.payload

/-- The call that hands a frame over. -/
def Frame.call (f : Frame) : Call := ⟨f.channel, f.payload.length, f.payload, f.payload.length⟩

theorem ntohs_length (f : Frame) :
    ntohs (UInt8.ofNat (f.payload.length / 256)) (UInt8.ofNat (f.payload.length % 256)) =
      f.payload.length := ntohs_ofNat f.length_lt

/-- A response that fits into its buffer. Its head starts with `RTSP` and ends with the first blank
line, and its body has the length the head tells. -/
structure Response where
  version : List UInt8
  digits : List UInt8
  rest : List UInt8
  body : List UInt8
  version_starts : rtspMagic <+: version
  version_text : ∀ b ∈ version, b ≠ 32 ∧ b ≠ 0
  version_le : version.length ≤ 9
  digits_ne : digits ≠ []
  digits_digit : ∀ b ∈ digits, isDigit b = true
  blank : httpHeardGetlength (responseHead version digits rest) =
    (responseHead version digits rest).length
  blank_first : ∀ n < (responseHead version digits rest).length,
    httpHeardGetlength ((responseHead version digits rest).take n) = 0
  body_length : httpHeadGetContentLength (responseHead version digits rest) = body.length ∨
    httpHeadGetContentLength (responseHead version digits rest) = -1 ∧ body = []
  fits : (responseHead version digits rest).length + body.length ≤ buffRtspSize

def Response.head (r : Response) : List UInt8 := responseHead r.version r.digits r.rest

def Response.bytes (r : Response) : List UInt8 := r.head ++ r.body

/-- What arrives: the frames and the response behind them. -/
def wire (frames : List Frame) (r : Response) : List UInt8 := frames.flatMap Frame.bytes ++ r.bytes

/-- The status code of a response. -/
def Response.code (r : Response) : Int := decimal r.digits

/-- A response that fits is one of any length. -/
def Response.toReply (r : Response) : Reply :=
  ⟨r.version, r.digits, r.rest, r.body, r.version_starts, r.version_text, r.version_le, r.digits_ne,
    r.digits_digit, r.blank, r.blank_first, r.body_length⟩

/-! ## Where the reader is in the stream -/

variable {r : Response} {f : Frame} {rest : List Frame} {b : UInt8} {more : List UInt8}

/-- The reader is between two frames, with less than the four bytes of a head. -/
structure InHead (r : Response) (rest : List Frame) (s : Reader) : Prop where
  flag : s.rflag = .head
  short : s.packetHead.length < 4
  stream : s.packetHead ++ s.outstanding = rest.flatMap Frame.bytes ++ r.bytes

/-- The reader has the head of `f`. -/
structure InFrame (r : Response) (f : Frame) (rest : List Frame) (s : Reader) : Prop where
  flag : s.rflag = .frame
  wpos : s.wpos = 0
  packetHead : s.packetHead = []
  channel : s.rtspifChannel = f.channel
  len : s.rtspifLen = f.payload.length
  stream : s.outstanding = f.payload ++ (rest.flatMap Frame.bytes ++ r.bytes)

/-- The reader is in the response, and has looked for the blank line in what it has of it. -/
structure InText (r : Response) (s : Reader) : Prop where
  flag : s.rflag = .text
  stream : s.buffRtsp ++ s.outstanding = r.bytes
  short : s.buffRtsp.length < r.head.length → s.headLength = 0 ∧ s.contentLength = 0
  long : r.head.length ≤ s.buffRtsp.length →
    s.headLength = r.head.length ∧ s.contentLength = r.body.length

theorem length_version_ge (r : Response) : 4 ≤ r.version.length := r.toReply.length_version_ge

theorem length_head (r : Response) : r.version.length < r.head.length := r.toReply.length_head

theorem length_bytes (r : Response) : r.bytes.length = r.head.length + r.body.length :=
  r.toReply.length_bytes

/-- The reader is in a response with nothing behind it. -/
theorem inText_iff : InText r s ↔ InReply r.toReply [] s := by
  have hnil : r.toReply.bytes ++ [] = r.bytes := List.append_nil _
  constructor
  · exact fun h => ⟨h.flag, h.stream.trans hnil.symm, h.short, h.long⟩
  · exact fun h => ⟨h.flag, h.stream.trans hnil, h.short, h.long⟩

/-- A head that is not complete. -/
theorem inHead_step_short (h : InHead r rest s) (hout : s.outstanding = b :: more)
    (hlt : s.packetHead.length < 3) :
    InHead r rest (onHead rtspRecv { s with outstanding := more } b) := by
  rw [onHead_of_lt (show ({ s with outstanding := more } : Reader).packetHead.length < 3 from hlt)]
  refine ⟨h.flag, ?_, ?_⟩
  · show (s.packetHead ++ [b]).length < 4
    rw [List.length_append, List.length_singleton]
    omega
  · have hstream := h.stream
    rw [hout] at hstream
    show s.packetHead ++ [b] ++ more = _
    rw [List.append_assoc, List.singleton_append, hstream]

/-- The head of a frame. -/
theorem inHead_step_frame (h : InHead r (f :: rest) s) (hout : s.outstanding = b :: more)
    (hlen : s.packetHead.length = 3) :
    InFrame r f rest (onHead rtspRecv { s with outstanding := more } b) ∧
      (onHead rtspRecv { s with outstanding := more } b).result = s.result := by
  have hstream := h.stream
  rw [hout, List.flatMap_cons, Frame.bytes] at hstream
  have hcat : s.packetHead ++ s.outstanding =
      [36, f.channel, UInt8.ofNat (f.payload.length / 256), UInt8.ofNat (f.payload.length % 256)] ++
        (f.payload ++ (rest.flatMap Frame.bytes ++ r.bytes)) := by
    rw [hout, hstream]
    simp
  obtain ⟨hhead, hmore⟩ := head_split rfl hlen hout hcat
  rw [onHead_of_dollar (show ({ s with outstanding := more } : Reader).packetHead ++ [b] = _ from hhead),
    ntohs_length]
  exact ⟨⟨rfl, rfl, rfl, rfl, rfl, hmore⟩, rfl⟩

/-- The head of the response. -/
theorem inHead_step_text (h : InHead r [] s) (hout : s.outstanding = b :: more)
    (hlen : s.packetHead.length = 3) :
    InText r (onHead rtspRecv { s with outstanding := more } b) ∧ more ≠ [] ∧
      (onHead rtspRecv { s with outstanding := more } b).result = s.result := by
  obtain ⟨tail, htail, hne⟩ := r.toReply.bytes_eq_magic
  have htail : r.bytes = rtspMagic ++ tail := htail
  have hstream := h.stream
  rw [List.flatMap_nil, List.nil_append, htail] at hstream
  obtain ⟨hhead, hmore⟩ := head_split rfl hlen hout hstream
  rw [onHead_of_magic (show ({ s with outstanding := more } : Reader).packetHead ++ [b] = _ from hhead)]
  refine ⟨inText_iff.mpr (inReply_magic rfl rfl rfl rfl ?_), hmore ▸ hne, rfl⟩
  show rtspMagic ++ more = r.bytes ++ []
  rw [hmore, htail, List.append_nil]

/-- `_http_recv` finds the blank line with its last byte. -/
theorem inText_httpRecv (h : InText r s) (hout : s.outstanding = b :: more) :
    InText r (httpRecv { s with outstanding := more } b) :=
  inText_iff.mpr (inReply_httpRecv (inText_iff.mp h) hout)

/-- A byte of the response. The last one makes the reader return the status code. -/
theorem inText_step (h : InText r s) (hout : s.outstanding = b :: more) :
    onText rtspRecv { s with outstanding := more } b =
      if more = [] then
        { httpRecv { s with outstanding := more } b with result := some r.code }
      else httpRecv { s with outstanding := more } b := by
  have hlen : s.buffRtsp.length + (more.length + 1) = r.bytes.length := by
    rw [← List.length_cons, ← hout, ← List.length_append, h.stream]
  have hfits : r.head.length + r.body.length ≤ buffRtspSize := r.fits
  rw [← length_bytes] at hfits
  rw [inReply_step (inText_iff.mp h) hout, if_neg (by omega),
    show r.toReply.bytes.length = r.bytes.length from rfl]
  by_cases hmore : more = []
  · rw [hmore, List.length_nil] at hlen
    rw [if_pos (by omega), if_pos hmore]
    rfl
  · have hpos := List.length_pos_iff.mpr hmore
    rw [if_neg (by omega), if_neg hmore]

/-! ## Every frame once, then the status code -/

/-- Where the reader is when `rest` of the frames have not been handed over. -/
inductive Position (r : Response) : List Frame → Reader → Prop
  | head {rest : List Frame} {s : Reader} (h : InHead r rest s) : Position r rest s
  | frame {f : Frame} {rest : List Frame} {s : Reader} (h : InFrame r f rest s) :
    Position r (f :: rest) s
  | text {s : Reader} (h : InText r s) (hout : s.outstanding ≠ []) : Position r [] s

/-- The frames before the position have been handed over, or all of them and the response. -/
structure Delivers (r : Response) (frames : List Frame) (s : Reader) : Prop where
  running : s.result = none → ∃ done rest, frames = done ++ rest ∧
    s.calls = done.map Frame.call ∧ Position r rest s
  returned : s.result ≠ none → s.result = some r.code ∧ s.calls = frames.map Frame.call

/-- There is always something to read. -/
theorem Position.outstanding_ne {rest : List Frame} (h : Position r rest s) :
    s.outstanding ≠ [] := by
  intro hnil
  cases h with
  | head h =>
    have hlen := congrArg List.length h.stream
    have h1 := length_version_ge r
    have h2 := length_head r
    have h3 := h.short
    rw [hnil, List.append_nil, List.length_append, length_bytes] at hlen
    omega
  | @frame f _ _ h =>
    have hlen := congrArg List.length h.stream
    have hpos := f.length_pos
    rw [hnil, List.length_append, List.length_nil] at hlen
    omega
  | text h hout => exact hout hnil

theorem delivers_init (r : Response) (frames : List Frame) (mem : Mem) :
    Delivers r frames (Reader.init mem (frames.flatMap Frame.bytes ++ r.bytes)) :=
  ⟨fun _ => ⟨[], frames, rfl, rfl, .head ⟨rfl, Nat.zero_lt_succ 3, rfl⟩⟩, fun h => absurd rfl h⟩

/-- A byte between two frames. -/
theorem inHead_step {rest : List Frame} (h : InHead r rest s) (hout : s.outstanding = b :: more) :
    Position r rest (onHead rtspRecv { s with outstanding := more } b) ∧
      (onHead rtspRecv { s with outstanding := more } b).result = s.result := by
  have hshort := h.short
  by_cases hlt : s.packetHead.length < 3
  · refine ⟨.head (inHead_step_short h hout hlt), ?_⟩
    rw [onHead_of_lt (show ({ s with outstanding := more } : Reader).packetHead.length < 3 from hlt)]
  · have hlen : s.packetHead.length = 3 := by omega
    cases rest with
    | nil =>
      obtain ⟨htext, hne, hres⟩ := inHead_step_text h hout hlen
      refine ⟨.text htext ?_, hres⟩
      have hstep : (onHead rtspRecv { s with outstanding := more } b).outstanding = more := by
        simp only [onHead]
        split
        · split
          · rfl
          · split
            · split <;> rfl
            · rfl
        · rfl
      rwa [hstep]
    | cons f rest =>
      obtain ⟨hframe, hres⟩ := inHead_step_frame h hout hlen
      exact ⟨.frame hframe, hres⟩

/-- A whole frame. -/
theorem inFrame_step {n : Nat} (h : InFrame r f rest s) (hres : s.result = none)
    (hwhole : wholeRead s (.data n) = true) :
    InHead r rest (readerStep rtspRecv s (.data n)) ∧
      (readerStep rtspRecv s (.data n)).result = none ∧
      (readerStep rtspRecv s (.data n)).calls = s.calls ++ [f.call] := by
  have hne : s.outstanding ≠ [] := (Position.frame h).outstanding_ne
  have hpos := f.length_pos
  have hbs : (s.outstanding.take s.rtspifLen).take (n + 1) = f.payload := by
    have hle : s.rtspifLen ≤ n + 1 := by
      simp only [wholeRead, hres, h.flag, h.wpos, Nat.sub_zero, bne_self_eq_false, Bool.false_or,
        Bool.or_eq_true, beq_iff_eq, decide_eq_true_eq, hne, false_or] at hwhole
      omega
    rw [List.take_take, Nat.min_eq_right hle, h.stream, h.len, List.take_left' rfl]
  rw [readerStep_rtspRecv_frame n hres (fun _ => h.wpos) hne h.flag (by rw [h.len]; omega), hbs]
  refine ⟨⟨rfl, ?_, ?_⟩, hres, ?_⟩
  · show s.packetHead.length < 4
    rw [h.packetHead]
    decide
  · show s.packetHead ++ s.outstanding.drop f.payload.length = _
    rw [h.packetHead, h.stream, List.drop_left' rfl, List.nil_append]
  · show s.calls ++ [⟨s.rtspifChannel, s.rtspifLen, (s.buffRtcpRtp.write 0 f.payload).bytes 0
      s.rtspifLen, f.payload.length⟩] = _
    rw [h.channel, h.len, Mem.bytes_write_self]
    rfl

theorem delivers_step {frames : List Frame} {turn : Turn} (h : Delivers r frames s)
    (hturn : turn ≠ .closed) (hwhole : wholeRead s turn = true) :
    Delivers r frames (readerStep rtspRecv s turn) := by
  by_cases hres : s.result = none
  · cases turn with
    | idle => rwa [readerStep_idle]
    | closed => exact absurd rfl hturn
    | data n =>
      obtain ⟨done, rest, hframes, hcalls, hpos⟩ := h.running hres
      obtain ⟨b, more, hout⟩ := List.exists_cons_of_ne_nil hpos.outstanding_ne
      cases hpos with
      | head hhead =>
        rw [readerStep_head n hres hout hhead.flag]
        obtain ⟨hnext, hsame⟩ := inHead_step hhead hout
        refine ⟨fun _ => ⟨done, rest, hframes, ?_, hnext⟩, fun hne => absurd (hsame.trans hres) hne⟩
        rw [calls_onHead rtspRecv_plain]
        exact hcalls
      | @frame f rest _ hframe =>
        obtain ⟨hnext, hnone, hcall⟩ := inFrame_step hframe hres hwhole
        refine ⟨fun _ => ⟨done ++ [f], rest, ?_, ?_, .head hnext⟩, fun hne => absurd hnone hne⟩
        · rw [hframes, List.append_assoc, List.singleton_append]
        · rw [hcall, hcalls, List.map_append, List.map_singleton]
      | text htext hne =>
        rw [readerStep_text n hres hout htext.flag, inText_step htext hout]
        have hcallsNext : (httpRecv { s with outstanding := more } b).calls = done.map Frame.call := by
          rw [calls_httpRecv]
          exact hcalls
        split
        · refine ⟨fun hnone => ?_, fun _ => ⟨rfl, ?_⟩⟩
          · cases hnone
          · rw [hframes, List.append_nil]
            exact hcallsNext
        · next hmore =>
          have hnone : (httpRecv { s with outstanding := more } b).result = none := by
            simp only [httpRecv]
            split <;> exact hres
          refine ⟨fun _ => ⟨done, [], hframes, hcallsNext, ?_⟩, fun hne => absurd hnone hne⟩
          refine .text (inText_httpRecv htext hout) ?_
          rw [outstanding_httpRecv]
          exact hmore
  · rwa [readerStep_of_result hres]

theorem delivers_run {frames : List Frame} {turns : List Turn} (h : Delivers r frames s)
    (hturns : Turn.closed ∉ turns) (hwhole : wholeReads rtspRecv s turns = true) :
    Delivers r frames (readerRun rtspRecv s turns) := by
  induction turns generalizing s with
  | nil => exact h
  | cons turn turns ih =>
    rw [wholeReads, Bool.and_eq_true] at hwhole
    rw [List.mem_cons, not_or] at hturns
    exact ih (delivers_step h (Ne.symm hturns.1) hwhole.1) hturns.2 hwhole.2

/-- Every frame was handed over once and in order, and the status code returned. -/
def Delivered (frames : List Frame) (r : Response) (s : Reader) : Prop :=
  s.calls = frames.map Frame.call ∧ s.result = some r.code

/-- There is no more to do for the reader. -/
def Finished (s : Reader) : Prop := s.result ≠ none ∨ s.outstanding = []

theorem delivered_of_wholeReads {frames : List Frame} {mem : Mem} {turns : List Turn}
    (hturns : Turn.closed ∉ turns)
    (hfin : Finished (readerRun rtspRecv (Reader.init mem (wire frames r)) turns))
    (hwhole : wholeReads rtspRecv (Reader.init mem (wire frames r)) turns = true) :
    Delivered frames r (readerRun rtspRecv (Reader.init mem (wire frames r)) turns) := by
  have hdel := delivers_run (delivers_init r frames mem) hturns hwhole
  have hres : (readerRun rtspRecv (Reader.init mem (wire frames r)) turns).result ≠ none := by
    intro hnone
    obtain ⟨_, _, _, _, hpos⟩ := hdel.running hnone
    rcases hfin with hne | hnil
    · exact hne hnone
    · exact hpos.outstanding_ne hnil
  exact ⟨(hdel.returned hres).2, (hdel.returned hres).1⟩

theorem wholeReads_of_delivered {frames : List Frame} {mem : Mem} {bytes : List UInt8}
    {turns : List Turn}
    (hdel : Delivered frames r (readerRun rtspRecv (Reader.init mem bytes) turns)) :
    wholeReads rtspRecv (Reader.init mem bytes) turns = true := by
  by_contra hne
  obtain ⟨c, hc, hrec⟩ :=
    exists_call_of_not_wholeReads (fresh_init mem bytes) (Bool.not_eq_true _ ▸ hne)
  rw [hdel.1, List.mem_map] at hc
  obtain ⟨f, -, rfl⟩ := hc
  exact hrec rfl

/-- `RTSPClient_RTSPRecv` on every socket. Frames and a response lead to a call per frame and to the
status code if every frame arrives whole and only then; and on any bytes it finds the frames that the
reader of `RTSPClient_StreamRecv` finds if every frame arrives whole and only then. -/
theorem rtspRecv_meets_iff_wholeReads (mem : Mem) (turns : List Turn) :
    (∀ (frames : List Frame) (r : Response), Turn.closed ∉ turns →
      Finished (readerRun rtspRecv (Reader.init mem (wire frames r)) turns) →
      (Delivered frames r (readerRun rtspRecv (Reader.init mem (wire frames r)) turns) ↔
        wholeReads rtspRecv (Reader.init mem (wire frames r)) turns = true)) ∧
    (∀ bytes : List UInt8,
      (readerRun rtspRecv (Reader.init mem bytes) turns.dropLast).result = none →
      ((readerRun rtspRecv (Reader.init mem bytes) turns).calls =
          (readerRun streamRecv (Reader.init mem bytes) turns).calls ↔
        wholeReads rtspRecv (Reader.init mem bytes) turns = true)) :=
  ⟨fun _ _ hturns hfin =>
      ⟨wholeReads_of_delivered, delivered_of_wholeReads hturns hfin⟩,
    fun bytes hrun => calls_eq_iff_wholeReads mem bytes turns hrun⟩

/-- A frame of three bytes on channel 2. -/
def shortFrame : Frame := ⟨2, [7, 8, 9], by decide, by decide⟩

/-- `RTSP/1.0 200 OK` and a blank line. -/
def okResponse : Response where
  version := [82, 84, 83, 80, 47, 49, 46, 48]
  digits := [50, 48, 48]
  rest := [79, 75, 13, 10, 13, 10]
  body := []
  version_starts := by decide
  version_text := by decide +kernel
  version_le := by decide
  digits_ne := by decide
  digits_digit := by decide +kernel
  blank := by decide
  blank_first := by decide +kernel
  body_length := by decide
  fits := by decide

/-- Four turns for the head of the frame, `reads` for its bytes, and the rest byte by byte. -/
def frameTurns (reads : List Nat) : List Turn :=
  (List.replicate 4 0 ++ reads ++ List.replicate 23 0).map Turn.data

theorem rtspRecv_meets_iff_wholeReads_short :
    Delivered [shortFrame] okResponse
      (readerRun rtspRecv (Reader.init (fun _ => 0) (wire [shortFrame] okResponse))
        (frameTurns [5])) :=
  ((rtspRecv_meets_iff_wholeReads (fun _ => 0) (frameTurns [5])).1 [shortFrame] okResponse
    (by decide) (.inl (by decide +kernel))).mpr (by decide +kernel)

/-- When two bytes of the frame arrive and then the third, the callback gets a frame with a byte that
has not arrived, and the third byte is taken for the head of a frame. -/
theorem rtspRecv_split_frame :
    ¬Delivered [shortFrame] okResponse
      (readerRun rtspRecv (Reader.init (fun _ => 0) (wire [shortFrame] okResponse))
        (frameTurns [1, 0])) ∧
    (readerRun rtspRecv (Reader.init (fun _ => 0) (wire [shortFrame] okResponse))
        (frameTurns [1, 0])).calls = [⟨2, 3, [7, 8, 0], 2⟩] ∧
    (readerRun streamRecv (Reader.init (fun _ => 0) (wire [shortFrame] okResponse))
        (frameTurns [1, 0])).calls = [⟨2, 3, [7, 8, 9], 3⟩] := by
  have hcalls : (readerRun rtspRecv (Reader.init (fun _ => 0) (wire [shortFrame] okResponse))
      (frameTurns [1, 0])).calls = [⟨2, 3, [7, 8, 0], 2⟩] := by decide +kernel
  refine ⟨fun hdel => ?_, hcalls, by decide +kernel⟩
  have hframe := hcalls.symm.trans hdel.1
  exact absurd hframe (by decide)

end ProgrammingPath.Rtsp
