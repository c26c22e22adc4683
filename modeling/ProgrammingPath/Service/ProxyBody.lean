import ProgrammingPath.Lib.Replace
import ProgrammingPath.Service.ResponseHead

/-!
# The body of a response in the proxy

For two kinds of requests `test_proxy.c` puts its own address for that of the device into the body of the response,
which may change the length of the body. `_loop_http_response_onvif` writes the new length into the head;
`_loop_http_response_nvr` sends the head as it is and leaves the body to the loop of `thread_run`, which replaces once
more. `framed_iff` says when the client can tell where the body ends.
-/

namespace ProgrammingPath.Proxy

open ProgrammingPath.Lib

/-! ## The addresses -/

/-- One end of a connection; `inet_ntop` writes numbers and dots. -/
structure Peer extends Address where
  dotted : ∀ b ∈ ip, b = 46 ∨ 48 ≤ b ∧ b ≤ 57

/-- `struct repeater_stream`: the device is at the remote end of `in`, and the client knows the proxy by the local end of
`out`. -/
structure RepeaterStream where
  inRemote : Peer
  outLocal : Peer
  toPortRtsp : Nat
  serverPortRtsp : Nat
  toPortRtsp_lt : toPortRtsp < 65536
  serverPortRtsp_lt : serverPortRtsp < 65536

/-- `"%s://%s:%d/"`, or without a port. -/
def url (scheme ip : List UInt8) (port : Option Nat) : List UInt8 :=
  scheme ++ text "://" ++ ip ++ (port.elim [] fun p => 58 :: digitsText p) ++ [47]

/-- `"\"%s\""`. -/
def quoted (ip : List UInt8) : List UInt8 := 34 :: ip ++ [34]

/-- `str_replace` where there is something to replace. -/
def replaceFound (str old new : List UInt8) : List UInt8 :=
  if (indexOf old str).isSome then strReplace str old new else str

/-- `str_replace_`: in place, so only for texts of the same length. -/
def strReplaceInPlace (mem old new : List UInt8) : List UInt8 :=
  if old.length = new.length then strReplace (cstr mem) old new ++ mem.drop (cstr mem).length else mem

/-- The size of `buffcache`, without the byte that is kept for a NUL. -/
def buffSize : Nat := 30719

/-! ## What is received -/

/-- What `recv` gets, and how often it says `EAGAIN` before. -/
structure Arrival where
  pause : Nat
  data : List UInt8
  data_ne : data ≠ []

/-- `sockstream_recv` of at most `size` bytes; `none` when nothing comes any more. -/
def recv (size : Nat) (hsize : 0 < size) : List Arrival → Option (Arrival × List Arrival)
  | [] => none
  | a :: rest =>
    if hlong : size < a.data.length then
      have htake : a.data.take size ≠ [] := by
        rw [← List.length_pos_iff, List.length_take]
        omega
      have hdrop : a.data.drop size ≠ [] := by
        rw [← List.length_pos_iff, List.length_drop]
        omega
      some (⟨a.pause, a.data.take size, htake⟩, ⟨0, a.data.drop size, hdrop⟩ :: rest)
    else some (a, rest)

/-! ## `_loop_http_response_onvif` -/

/-- The loop that reads the rest of the body; `none` when the bytes do not fit into `xmlstring`. -/
def onvifLoop (contentLength : Nat) : Nat → List Arrival → List UInt8 → Option (List UInt8)
  | 0, _, _ => none
  | fuel + 1, arrivals, xmlstring =>
    if contentLength ≤ xmlstring.length then some xmlstring
    else
      match recv buffSize (by decide) arrivals with
      | none => some xmlstring
      | some (a, rest) =>
        if contentLength < xmlstring.length + a.data.length then none
        else onvifLoop contentLength fuel rest (xmlstring ++ a.data)

/-- `buff1` and `buff2` of the second replacement: with the port if that occurs, else without. -/
def httpStrs (s : RepeaterStream) (xmlstring : List UInt8) : List UInt8 × List UInt8 :=
  let buff1 := url (text "http") s.inRemote.ip (some s.inRemote.port)
  let buff2 := url (text "http") s.outLocal.ip (some s.outLocal.port)
  if (indexOf buff1 xmlstring).isSome then (buff1, buff2)
  else
    (url (text "http") s.inRemote.ip none,
      if s.outLocal.port ≠ 80 then buff2 else url (text "http") s.outLocal.ip none)

/-- `buff1` and `buff2` of the first one. -/
def rtspStrs (s : RepeaterStream) : List UInt8 × List UInt8 :=
  (url (text "rtsp") s.inRemote.ip (some s.toPortRtsp), url (text "rtsp") s.outLocal.ip (some s.serverPortRtsp))

/-- The two replacements. -/
def onvifBody (s : RepeaterStream) (xmlstring : List UInt8) : List UInt8 :=
  let xmlstring :=
    if s.serverPortRtsp ≠ 0 then replaceFound xmlstring (rtspStrs s).1 (rtspStrs s).2 else xmlstring
  replaceFound xmlstring (httpStrs s xmlstring).1 (httpStrs s xmlstring).2

/-- `_loop_http_response_onvif`. Without a `Content-Length` it goes on by `http_response_code`, to which nothing was
assigned. -/
def loopHttpResponseOnvif (sock : Nat → Answer) (s : RepeaterStream) (contentLength : Int) (arrivals : List Arrival)
    (fuel : Nat) (mem : List UInt8) (out : Sink UInt8) : Option (Sink UInt8) :=
  match httpHeardGetlength mem with
  | none => some out
  | some n =>
    if contentLength > 0 then
      let contentLength := contentLength.toNat
      if contentLength + 1 < (mem.drop n).length then none
      else
        (onvifLoop contentLength fuel arrivals ((mem.drop n).take contentLength)).bind fun xmlstring =>
          if xmlstring.length < contentLength then some out
          else
            let xmlstring := onvifBody s (cstr xmlstring)
            if hlen : xmlstring.length < 2147483648 then
              (loopHttpHeadResponseInOut sock (.onvif ⟨xmlstring.length, hlen⟩) fuel mem out).map fun out =>
                out.send sock xmlstring
            else none
    else none

/-! ## `_loop_http_response_nvr` and what follows in `thread_run` -/

/-- The loop that reads the rest of the body: until it is complete, the buffer is full, or nothing came two thousand
times. -/
def nvrLoop (contentLength : Int) : Nat → List Arrival → List UInt8 → Option (List UInt8)
  | 0, _, _ => none
  | fuel + 1, arrivals, data =>
    if hroom : data.length < buffSize - 500 then
      match recv (buffSize - 500 - data.length) (Nat.sub_pos_of_lt hroom) arrivals with
      | none => some data
      | some (a, rest) =>
        if 2000 < a.pause then some data
        else if contentLength > 0 ∧ contentLength = (data.length + a.data.length : Nat) then some (data ++ a.data)
        else nvrLoop contentLength fuel rest (data ++ a.data)
    else some data

/-- The replacement in the buffer; `none` when `strcpy` overflows it. -/
def nvrBody (s : RepeaterStream) (data : List UInt8) : Option (List UInt8) :=
  if (indexOf (quoted s.inRemote.ip) (cstr data)).isSome then
    let tmpstr := strReplace (cstr data) (quoted s.inRemote.ip) (quoted s.outLocal.ip)
    if buffSize < tmpstr.length then none else some tmpstr
  else some data

/-- `repstr1` and `repstr2` of `thread_run`, of 20 bytes each: `none` when `sprintf` overflows one of them. -/
def repStrs (s : RepeaterStream) (data : List UInt8) : Option (List UInt8 × List UInt8) :=
  if 20 ≤ s.inRemote.withPort.length then none
  else if (indexOf s.inRemote.withPort data).isSome then
    if 20 ≤ s.outLocal.withPort.length then none else some (s.inRemote.withPort, s.outLocal.withPort)
  else some (s.inRemote.ip, s.outLocal.ip)

/-- The replacement in `thread_run`. -/
def threadRunBody (s : RepeaterStream) (data : List UInt8) : Option (List UInt8) :=
  (repStrs s (cstr data)).map fun strs =>
    if (indexOf strs.1 (cstr data)).isSome then strReplaceInPlace data strs.1 strs.2 else data

/-- `_loop_http_response_nvr`, and `thread_run` from there on. -/
def loopHttpResponseNvr (sock : Nat → Answer) (s : RepeaterStream) (contentLength : Int) (arrivals : List Arrival)
    (fuel : Nat) (mem : List UInt8) (out : Sink UInt8) : Option (Sink UInt8) :=
  match httpHeardGetlength mem with
  | none => some out
  | some n =>
    (nvrLoop contentLength fuel arrivals (mem.drop n)).bind fun data =>
      (nvrBody s data).bind fun data =>
        (loopHttpHeadResponseInOut sock .nvr fuel mem out).bind fun sent =>
          match sock out.calls with
          -- -1, and `thread_run` ends
          | .again => some sent
          | .took _ => (threadRunBody s data).bind fun data => bodyLoop sock fuel data sent

/-! ## The responses -/

/-- The path of the request, on which it depends what is done with the body. -/
inductive Path
  | onvif
  | cgiBinMainCgi

/-- `_loop_http_head_response_in_out` for these paths, with what follows. -/
def relayResponse (sock : Nat → Answer) (s : RepeaterStream) (path : Path) (arrivals : List Arrival) (fuel : Nat)
    (mem : List UInt8) (out : Sink UInt8) : Option (Sink UInt8) :=
  match httpHeardGetlength mem with
  | none => some out
  | some n =>
    match path with
    | .onvif => loopHttpResponseOnvif sock s (responseContentLength mem n) arrivals fuel mem out
    | .cgiBinMainCgi => loopHttpResponseNvr sock s (responseContentLength mem n) arrivals fuel mem out

/-! ## What is replaced -/

section Replacing

variable {old new : List UInt8}

theorem strReplaceLoop_replaced (hold : old ≠ []) {fuel : Nat} {str : List UInt8} (hfuel : str.length ≤ fuel) :
    ∃ k, Replaced old new k str (strReplaceLoop old new fuel str) := by
  have hpos := List.length_pos_iff.mpr hold
  induction fuel generalizing str with
  | zero =>
    rw [List.length_eq_zero_iff.mp (Nat.le_zero.mp hfuel)]
    exact ⟨0, .nil⟩
  | succ fuel ih =>
    cases str with
    | nil => exact ⟨0, .nil⟩
    | cons b rest =>
      rw [strReplaceLoop]
      split
      · next hpre =>
        obtain ⟨l, hl⟩ := hpre
        have hlen := congrArg List.length hl
        rw [List.length_append] at hlen
        rw [← hl, List.drop_left]
        have hl : l.length ≤ fuel := by omega
        obtain ⟨k, hk⟩ := ih hl
        exact ⟨k + 1, .found hk⟩
      · next hpre =>
        obtain ⟨k, hk⟩ := ih (Nat.le_of_succ_le_succ hfuel)
        exact ⟨k, .other hpre hk⟩

theorem strReplace_replaced (hold : old ≠ []) (str : List UInt8) :
    ∃ k, Replaced old new k str (strReplace str old new) := strReplaceLoop_replaced hold (Nat.le_refl _)

/-- Whether or not there is something to replace. -/
theorem replaceFound_replaced (hold : old ≠ []) (str : List UInt8) :
    ∃ k, Replaced old new k str (replaceFound str old new) := by
  rw [replaceFound]
  split
  · exact strReplace_replaced hold str
  · next hnot =>
    rw [indexOf_isSome_iff hold] at hnot
    exact ⟨0, .of_absent hnot⟩

end Replacing

theorem url_ne_nil (scheme ip : List UInt8) (port : Option Nat) : url scheme ip port ≠ [] :=
  List.append_ne_nil_of_right_ne_nil _ (List.cons_ne_nil 47 [])

theorem quoted_ne_nil (ip : List UInt8) : quoted ip ≠ [] := List.cons_ne_nil 34 _

theorem length_digitsText_port {port : Nat} (h : port < 65536) : (digitsText port).length ≤ 5 := by
  have hfive : port < 10 ^ (4 + 1) := Nat.lt_trans h (by decide)
  exact length_digitsLoop_le hfive

/-- `buff1` and `buff2`, of 30 bytes each, have room for the text and its NUL. -/
theorem length_url_lt {scheme ip : List UInt8} {port : Option Nat} (hscheme : scheme.length ≤ 4)
    (hip : ip.length ≤ 15) (hport : ∀ p ∈ port, p < 65536) : (url scheme ip port).length < 30 := by
  have hsep : (text "://").length = 3 := by decide
  have hdigits : (port.elim [] fun p => 58 :: digitsText p).length ≤ 6 := by
    cases port with
    | none => exact Nat.zero_le 6
    | some p => exact Nat.succ_le_succ (length_digitsText_port (hport p rfl))
  simp only [url, List.length_append, hsep, List.length_singleton]
  omega

namespace RepeaterStream

variable (s : RepeaterStream)

theorem length_rtspStrs : (rtspStrs s).2.length ≤ 29 := by
  apply Nat.le_of_lt_succ
  apply length_url_lt (by decide) s.outLocal.ip_length
  intro p hp
  rw [← Option.some.inj hp]
  exact s.serverPortRtsp_lt

theorem httpStrs_facts (xml : List UInt8) : (httpStrs s xml).1 ≠ [] ∧ (httpStrs s xml).2.length ≤ 29 := by
  have hport : ∀ p ∈ some s.outLocal.port, p < 65536 := by
    intro p hp
    rw [← Option.some.inj hp]
    exact s.outLocal.port_lt
  have hwith := length_url_lt (show (text "http").length ≤ 4 by decide) s.outLocal.ip_length hport
  have hnone : ∀ p ∈ (none : Option Nat), p < 65536 := by
    intro p hp
    cases hp
  have hwithout : (url (text "http") s.outLocal.ip none).length < 30 :=
    length_url_lt (by decide) s.outLocal.ip_length hnone
  unfold httpStrs
  dsimp only
  split
  · exact ⟨url_ne_nil _ _ _, Nat.le_of_lt_succ hwith⟩
  · refine ⟨url_ne_nil _ _ _, ?_⟩
    dsimp only
    split
    · exact Nat.le_of_lt_succ hwith
    · exact Nat.le_of_lt_succ hwithout

/-- The addresses that `thread_run` compares. -/
def addressStrs (data : List UInt8) : List UInt8 × List UInt8 :=
  if (indexOf s.inRemote.withPort data).isSome then (s.inRemote.withPort, s.outLocal.withPort)
  else (s.inRemote.ip, s.outLocal.ip)

/-- The body with the address of the proxy for that of the device, on each of the paths. -/
def AddressesReplaced : Path → List UInt8 → List UInt8 → Prop
  | .onvif, body, body' =>
    ∃ xml, (if s.serverPortRtsp ≠ 0 then ∃ k, Replaced (rtspStrs s).1 (rtspStrs s).2 k body xml else xml = body) ∧
      ∃ k, Replaced (httpStrs s xml).1 (httpStrs s xml).2 k xml body'
  | .cgiBinMainCgi, body, body' =>
    ∃ data, (∃ k, Replaced (quoted s.inRemote.ip) (quoted s.outLocal.ip) k body data) ∧
      if (s.addressStrs data).1.length = (s.addressStrs data).2.length then
        ∃ k, Replaced (s.addressStrs data).1 (s.addressStrs data).2 k data body'
      else body' = data

theorem addressStrs_ne_nil (data : List UInt8) : (s.addressStrs data).1 ≠ [] := by
  rw [addressStrs]
  split
  · exact List.append_ne_nil_of_right_ne_nil _ (List.cons_ne_nil 58 _)
  · exact s.inRemote.ip_ne

/-- It is determined by the body. -/
theorem AddressesReplaced.unique {path : Path} {body l l' : List UInt8} (h : s.AddressesReplaced path body l)
    (h' : s.AddressesReplaced path body l') : l = l' := by
  cases path with
  | onvif =>
    obtain ⟨xml, hxml, k, hk⟩ := h
    obtain ⟨xml', hxml', k', hk'⟩ := h'
    obtain rfl : xml = xml' := by
      split at hxml
      · next hport =>
        rw [if_pos hport] at hxml'
        obtain ⟨_, hrtsp⟩ := hxml
        obtain ⟨_, hrtsp'⟩ := hxml'
        exact (hrtsp.unique (url_ne_nil _ _ _) hrtsp').2
      · next hport =>
        rw [if_neg hport] at hxml'
        rw [hxml, hxml']
    exact (hk.unique (s.httpStrs_facts xml).1 hk').2
  | cgiBinMainCgi =>
    obtain ⟨data, ⟨k, hk⟩, hrest⟩ := h
    obtain ⟨data', ⟨k', hk'⟩, hrest'⟩ := h'
    obtain rfl : data = data' := (hk.unique (quoted_ne_nil _) hk').2
    split at hrest
    · next hlen =>
      rw [if_pos hlen] at hrest'
      obtain ⟨_, hsame⟩ := hrest
      obtain ⟨_, hsame'⟩ := hrest'
      exact (hsame.unique (s.addressStrs_ne_nil data) hsame').2
    · next hlen =>
      rw [if_neg hlen] at hrest'
      rw [hrest, hrest']

/-- **The ONVIF path replaces the addresses.** -/
theorem addressesReplaced_onvifBody (body : List UInt8) : s.AddressesReplaced .onvif body (onvifBody s body) := by
  refine ⟨_, ?_, replaceFound_replaced (s.httpStrs_facts _).1 _⟩
  split
  · exact replaceFound_replaced (url_ne_nil _ _ _) body
  · rfl

/-- What is replaced does not make the body of an ONVIF response so much longer that its length is not an `int`. -/
theorem length_onvifBody {body : List UInt8} (hfits : body.length ≤ buffSize) :
    (onvifBody s body).length < 2147483648 := by
  obtain ⟨xml, hxml, k, hk⟩ := s.addressesReplaced_onvifBody body
  have hlen : xml.length ≤ body.length * 30 := by
    split at hxml
    · obtain ⟨_, hrtsp⟩ := hxml
      exact hrtsp.length_le (url_ne_nil _ _ _) s.length_rtspStrs
    · rw [hxml]
      omega
  have hlen' := hk.length_le (s.httpStrs_facts xml).1 (s.httpStrs_facts xml).2
  rw [buffSize] at hfits
  omega

end RepeaterStream

/-! ## The device and what it sends -/

/-- A response that a path may take: it announces the length of its body. -/
structure Response where
  head : ResponseHead
  body : List UInt8
  body_plain : 0 ∉ body
  body_ne : body ≠ []
  announced : contentLengths head.bytes = [some body.length]
  short : ∀ l ∈ head.lines, l.length + 1 < 2024
  fits : head.bytes.length + body.length ≤ buffSize

/-- A way for it to arrive: what is in the buffer with the head, and the rest. The path for `main-cgi` has so much room,
and takes two thousand times nothing for the end. -/
structure Chunking (path : Path) (r : Response) where
  early : List UInt8
  arrivals : List Arrival
  whole : early ++ arrivals.flatMap Arrival.data = r.body
  room : path = .cgiBinMainCgi → r.body.length ≤ buffSize - 500 ∨ arrivals = []
  in_time : path = .cgiBinMainCgi → ∀ a ∈ arrivals, a.pause ≤ 2000

section Receiving

variable {body data : List UInt8} {a : Arrival} {arrivals : List Arrival}

/-- Nothing is left over when there is room for the body. -/
theorem recv_whole {size : Nat} (hsize : 0 < size) (hwhole : data ++ (a :: arrivals).flatMap Arrival.data = body)
    (hfits : body.length ≤ data.length + size) : recv size hsize (a :: arrivals) = some (a, arrivals) := by
  have hlen := congrArg List.length hwhole
  rw [List.flatMap_cons, List.length_append, List.length_append] at hlen
  rw [recv, dif_neg (by omega)]

theorem whole_cons (hwhole : data ++ (a :: arrivals).flatMap Arrival.data = body) :
    (data ++ a.data) ++ arrivals.flatMap Arrival.data = body ∧ data.length < body.length := by
  rw [List.flatMap_cons] at hwhole
  have hpos := List.length_pos_iff.mpr a.data_ne
  refine ⟨by rw [List.append_assoc, hwhole], ?_⟩
  rw [← hwhole, List.length_append, List.length_append]
  omega

/-- What is as long as the body is the body. -/
theorem eq_of_length_le (hwhole : data ++ arrivals.flatMap Arrival.data = body) (hlen : body.length ≤ data.length) :
    data = body := by
  have hprefix : data <+: body := ⟨_, hwhole⟩
  exact hprefix.eq_of_length_le hlen

/-- The ONVIF path reads the whole body, however it is cut. -/
theorem onvifLoop_whole {fuel : Nat} (hwhole : data ++ arrivals.flatMap Arrival.data = body)
    (hfits : body.length ≤ buffSize) :
    onvifLoop body.length fuel arrivals data = some body ∨
      onvifLoop body.length fuel arrivals data = none ∧ fuel ≤ arrivals.length := by
  induction fuel generalizing data arrivals with
  | zero => exact .inr ⟨rfl, Nat.zero_le _⟩
  | succ fuel ih =>
    rw [onvifLoop]
    cases arrivals with
    | nil =>
      rw [List.flatMap_nil, List.append_nil] at hwhole
      subst hwhole
      exact .inl (if_pos (Nat.le_refl _))
    | cons a arrivals =>
      obtain ⟨hrest, hmore⟩ := whole_cons hwhole
      have hle : data.length + a.data.length ≤ body.length := by
        rw [← hrest, List.length_append, List.length_append]
        omega
      rw [if_neg (Nat.not_le.mpr hmore), recv_whole _ hwhole (Nat.le_add_left_of_le hfits)]
      simp only [if_neg (Nat.not_lt.mpr hle)]
      exact (ih hrest).imp_right fun hnone => ⟨hnone.1, Nat.succ_le_succ hnone.2⟩

/-- And so does the other path, as long as it waits. -/
theorem nvrLoop_whole {contentLength : Int} (hlength : contentLength = body.length ∨ contentLength = 0) {fuel : Nat}
    (hwhole : data ++ arrivals.flatMap Arrival.data = body)
    (hroom : body.length ≤ buffSize - 500 ∨ arrivals = []) (hpause : ∀ a ∈ arrivals, a.pause ≤ 2000) :
    nvrLoop contentLength fuel arrivals data = some body ∨
      nvrLoop contentLength fuel arrivals data = none ∧ fuel ≤ arrivals.length := by
  induction fuel generalizing data arrivals with
  | zero => exact .inr ⟨rfl, Nat.zero_le _⟩
  | succ fuel ih =>
    rw [nvrLoop]
    cases arrivals with
    | nil =>
      rw [List.flatMap_nil, List.append_nil] at hwhole
      subst hwhole
      left
      split <;> rfl
    | cons a arrivals =>
      obtain ⟨hrest, hmore⟩ := whole_cons hwhole
      have hbody : body.length ≤ buffSize - 500 := hroom.resolve_right (List.cons_ne_nil a arrivals)
      have hopen : data.length < buffSize - 500 := Nat.lt_of_lt_of_le hmore hbody
      rw [dif_pos hopen, recv_whole _ hwhole (by omega)]
      simp only [if_neg (Nat.not_lt.mpr (hpause a List.mem_cons_self))]
      split
      · next hdone =>
        -- all that was announced is there
        left
        rw [eq_of_length_le hrest]
        rw [List.length_append]
        omega
      · exact (ih hrest (.inl hbody) fun b hb => hpause b (List.mem_cons_of_mem _ hb)).imp_right
          fun hnone => ⟨hnone.1, Nat.succ_le_succ hnone.2⟩

end Receiving

/-! ## What is sent -/

/-- The socket takes every piece whole whose length is an `int`. -/
def AcceptsAll (sock : Nat → Answer) : Prop := ∀ i len, len < 2147483648 → (sock i).taken len = len

section Sending

variable {sock : Nat → Answer} (hsock : AcceptsAll sock)

include hsock

theorem AcceptsAll.send {data : List UInt8} (hlen : data.length < 2147483648) (out : Sink UInt8) :
    (out.send sock data).delivered = out.delivered ++ data := by
  rw [Sink.send, hsock _ _ hlen, List.take_length]

theorem AcceptsAll.sendEach {pieces : List (List UInt8)} (hlen : ∀ p ∈ pieces, p.length < 2147483648)
    (out : Sink UInt8) : (out.sendEach sock pieces).delivered = out.delivered ++ pieces.flatten := by
  apply (out.sendEach_delivers_iff sock pieces).mpr
  intro i piece hi
  exact hsock _ _ (hlen piece (List.mem_of_getElem? hi))

/-- The socket says that it took something. -/
theorem AcceptsAll.took (i : Nat) : ∃ n, 0 < n ∧ sock i = .took n := by
  have hone := hsock i 1 (by decide)
  cases hans : sock i with
  | again =>
    rw [hans] at hone
    cases hone
  | took n =>
    rw [hans, Answer.taken] at hone
    exact ⟨n, by omega, rfl⟩

/-- One turn of the loop of `thread_run` is enough. -/
theorem AcceptsAll.bodyLoop {data : List UInt8} (hlen : data.length < 2147483648) (fuel : Nat) (out : Sink UInt8) :
    ∃ out', Proxy.bodyLoop sock (fuel + 1) data out = some out' := by
  cases data with
  | nil => exact ⟨out, rfl⟩
  | cons b data =>
    obtain ⟨n, hn, htook⟩ := hsock.took out.calls
    have htaken := hsock out.calls _ hlen
    obtain ⟨n, rfl⟩ := Nat.exists_eq_succ_of_ne_zero (Nat.ne_of_gt hn)
    rw [htook] at htaken
    refine ⟨out.send sock (b :: data), ?_⟩
    rw [Proxy.bodyLoop, htook]
    · simp only [htaken, List.drop_length]
      cases fuel <;> rfl
    · exact List.cons_ne_nil b data

end Sending

/-! ## The head that is sent -/

section Heads

variable {sock : Nat → Answer} (h : ResponseHead) (rest : List UInt8)

/-- A NUL in a head, and what is before it. -/
theorem ResponseHead.strndup_nul (hnul : 0 ∈ h.bytes) :
    ∃ p, 0 ∉ p ∧ p.length < h.bytes.length ∧ (∃ more, h.bytes = p ++ 0 :: more) ∧
      cstr (strndup (h.bytes ++ rest) h.bytes.length) = p ∧
      ∃ more, strndup (h.bytes ++ rest) h.bytes.length = p ++ 0 :: more := by
  obtain ⟨p, more, hp, hplain, hbefore⟩ := h.isHead_bytes.first_nul hnul
  have htake : (h.bytes ++ rest).take h.bytes.length = p ++ 0 :: more := (h.take_bytes rest).trans hp
  obtain ⟨hcopy, hcstr, -⟩ := strndup_of_nul htake hplain hbefore
  exact ⟨p, hplain, Nat.lt_of_succ_lt hbefore, ⟨more, hp⟩, hcstr, _, hcopy⟩

theorem ResponseHead.strndup_plain (hplain : 0 ∉ h.bytes) :
    strndup (h.bytes ++ rest) h.bytes.length = h.bytes := by
  have htake := h.take_bytes rest
  rw [strndup_of_plain (by rwa [htake]) (congrArg List.length htake), htake]

theorem ResponseHead.length_copy_le : (cstr (strndup (h.bytes ++ rest) h.bytes.length)).length ≤ h.bytes.length := by
  by_cases hnul : 0 ∈ h.bytes
  · obtain ⟨p, -, hlt, -, hcopy, -⟩ := h.strndup_nul rest hnul
    rw [hcopy]
    exact Nat.le_of_lt hlt
  · rw [h.strndup_plain rest hnul, cstr_of_notMem hnul]

/-- The ONVIF path puts the new length into the head. -/
theorem onvif_head (hsock : AcceptsAll sock) (hplain : 0 ∉ h.bytes) (hshort : ∀ l ∈ h.lines, l.length + 1 < 2024)
    (xmllength : Fin 2147483648) {fuel : Nat} (hfuel : h.lines.length + 1 < fuel) (out : Sink UInt8) :
    ∃ sent, loopHttpHeadResponseInOut sock (.onvif xmllength) fuel (h.bytes ++ rest) out = some sent ∧
      sent.delivered = out.delivered ++ (h.withLength xmllength).bytes := by
  have hself : h.bytes.take h.bytes.length = h.bytes := List.take_length
  obtain ⟨y, hend⟩ := h.isHead_bytes.exists_last
  have hline : 2 < 2024 := by decide
  have hloop : ∀ t, loopHttpHeadResponseInOut sock (.onvif xmllength) fuel (h.bytes ++ rest) out = some t ↔
      (pieces 2024 0 h.bytes).length < fuel ∧
        (∀ p ∈ pieces 2024 0 h.bytes, (onvifLine xmllength p).length < 2024) ∧
        out.sendEach sock ((pieces 2024 0 h.bytes).map (onvifLine xmllength)) = t := by
    intro t
    have hiff : lineLoop sock 2024 (onvifLine xmllength) h.bytes (h.bytes.length - 0) fuel 0 [] out = some t ↔ _ :=
      lineLoop_eq_some_iff (Nat.lt_of_succ_lt hline) (by rwa [hself]) (by rw [hself]; exact hend) (by rw [hself])
        (Nat.zero_le _)
    rw [hself, List.drop_zero] at hiff
    simp only [loopHttpHeadResponseInOut, h.httpHeardGetlength_bytes, h.strndup_plain rest hplain]
    exact hiff
  rw [h.pieces_bytes hline hshort, List.length_append, List.length_map, List.length_singleton] at hloop
  have hfits : ∀ p ∈ h.lines.map (· ++ [10]) ++ [h.blank], (onvifLine xmllength p).length < 2024 := by
    intro p hp
    apply length_onvifLine_lt
    rcases List.mem_append.mp hp with hp | hp
    · obtain ⟨l, hl, rfl⟩ := List.mem_map.mp hp
      rw [List.length_append, List.length_singleton]
      exact hshort l hl
    · rw [List.mem_singleton.mp hp]
      rcases h.blank_eq with hb | hb <;> rw [hb] <;> decide
  refine ⟨_, (hloop _).mpr ⟨hfuel, hfits, rfl⟩, ?_⟩
  rw [hsock.sendEach, h.flatten_map_onvifLine]
  intro p hp
  obtain ⟨q, hq, rfl⟩ := List.mem_map.mp hp
  exact Nat.lt_trans (hfits q hq) (by decide)

/-- With a NUL in the head the loop does not come to an end. -/
theorem onvif_head_nul (hnul : 0 ∈ h.bytes) (xmllength : Fin 2147483648) (fuel : Nat) (out : Sink UInt8) :
    loopHttpHeadResponseInOut sock (.onvif xmllength) fuel (h.bytes ++ rest) out = none := by
  obtain ⟨p, hplain, hlt, -, -, more, hmore⟩ := h.strndup_nul rest hnul
  simp only [loopHttpHeadResponseInOut, h.httpHeardGetlength_bytes, hmore]
  exact lineLoop_nul_head hplain hlt fuel [] out

/-- The other path sends the head as it is, up to a NUL. -/
theorem nvr_head (fuel : Nat) (out : Sink UInt8) :
    loopHttpHeadResponseInOut sock .nvr fuel (h.bytes ++ rest) out =
      some (out.send sock (cstr (strndup (h.bytes ++ rest) h.bytes.length))) := by
  simp only [loopHttpHeadResponseInOut, h.httpHeardGetlength_bytes]

end Heads

/-! ## The body on the path for `main-cgi` -/

section MainCgi

variable {s : RepeaterStream} {body data data' : List UInt8}

/-- Numbers and dots are no quotes, no colon and no NUL. -/
theorem Peer.plain (a : Peer) : 34 ∉ a.ip ∧ 58 ∉ a.ip ∧ 0 ∉ a.ip := by
  have hne : ∀ b : UInt8, b ≠ 46 → (b < 48 ∨ 57 < b) → b ∉ a.ip := by
    intro b hdot hrange hb
    rcases a.dotted b hb with rfl | hdigit
    · exact hdot rfl
    · rcases hrange with hlow | hhigh
      · exact absurd hdigit.1 (UInt8.not_le.mpr hlow)
      · exact absurd hdigit.2 (UInt8.not_le.mpr hhigh)
  exact ⟨hne 34 (by decide) (.inl (by decide)), hne 58 (by decide) (.inr (by decide)),
    hne 0 (by decide) (.inl (by decide))⟩

theorem Peer.withPort_plain (a : Peer) : 34 ∉ a.withPort ∧ 0 ∉ a.withPort := by
  have hdigits : ∀ b : UInt8, b < 48 → b ∉ digitsText a.port :=
    fun b hb => ResponseHead.not_mem_digitsText (.inl hb)
  simp only [Address.withPort, List.mem_append, List.mem_cons, not_or]
  exact ⟨⟨a.plain.1, by decide, hdigits 34 (by decide)⟩, a.plain.2.2, by decide, hdigits 0 (by decide)⟩

theorem withPort_ne_nil (a : Address) : a.withPort ≠ [] :=
  List.append_ne_nil_of_right_ne_nil _ (List.cons_ne_nil 58 _)

/-- An address with its port is not an address. -/
theorem Peer.not_infix (a b : Peer) : ¬a.withPort <:+: b.ip := by
  intro hin
  exact b.plain.2.1 (hin.subset (List.mem_append_right _ List.mem_cons_self))

theorem nvrBody_replaced (hplain : 0 ∉ body) (hdata : nvrBody s body = some data) :
    ∃ k, Replaced (quoted s.inRemote.ip) (quoted s.outLocal.ip) k body data := by
  rw [nvrBody, cstr_of_notMem hplain] at hdata
  split at hdata
  · dsimp only at hdata
    split at hdata
    · cases hdata
    · cases hdata
      exact strReplace_replaced (quoted_ne_nil _) body
  · next hnot =>
    cases hdata
    rw [indexOf_isSome_iff (quoted_ne_nil _)] at hnot
    exact ⟨0, .of_absent hnot⟩

theorem length_quoted (ip : List UInt8) : (quoted ip).length = ip.length + 2 := by simp [quoted]

/-- A body that does not get longer fits. -/
theorem nvrBody_isSome (hplain : 0 ∉ body) (hfits : body.length ≤ buffSize)
    (hsame : ¬quoted s.inRemote.ip <:+: body ∨ s.inRemote.ip.length = s.outLocal.ip.length) :
    ∃ data, nvrBody s body = some data ∧ data.length = body.length := by
  have hreplaced : ∃ k, Replaced (quoted s.inRemote.ip) (quoted s.outLocal.ip) k body _ :=
    strReplace_replaced (quoted_ne_nil _) body
  obtain ⟨k, hk⟩ := hreplaced
  have hlen : (strReplace body (quoted s.inRemote.ip) (quoted s.outLocal.ip)).length = body.length := by
    rw [hk.length_eq_iff (quoted_ne_nil _), length_quoted, length_quoted, Nat.add_right_cancel_iff]
    exact hsame
  rw [nvrBody, cstr_of_notMem hplain]
  split
  · exact ⟨_, if_neg (by omega), hlen⟩
  · exact ⟨body, rfl, rfl⟩

theorem not_mem_data (hplain : 0 ∉ body) {k : Nat}
    (hk : Replaced (quoted s.inRemote.ip) (quoted s.outLocal.ip) k body data) : 0 ∉ data := by
  intro hmem
  rcases hk.mem hmem with hbody | hip
  · exact hplain hbody
  · rcases List.mem_append.mp hip with hip | hquote
    · rcases List.mem_cons.mp hip with hquote | hip
      · cases hquote
      · exact s.outLocal.plain.2.2 hip
    · cases List.mem_singleton.mp hquote

/-- The address of the device with its port is in the body after the first replacement exactly if it was before. -/
theorem withPort_infix_iff {k : Nat} (hk : Replaced (quoted s.inRemote.ip) (quoted s.outLocal.ip) k body data) :
    s.inRemote.withPort <:+: body ↔ s.inRemote.withPort <:+: data :=
  hk.infix_iff (withPort_ne_nil _) s.inRemote.withPort_plain.1 (s.inRemote.not_infix s.inRemote)
    (s.inRemote.not_infix s.outLocal)

/-- The addresses have room in `repstr1` and `repstr2`. -/
def Roomy (s : RepeaterStream) (body : List UInt8) : Prop :=
  s.inRemote.withPort.length < 20 ∧ (s.inRemote.withPort <:+: body → s.outLocal.withPort.length < 20)

theorem repStrs_eq (data : List UInt8) (hroomy : Roomy s data) : repStrs s data = some (s.addressStrs data) := by
  rw [repStrs, if_neg (Nat.not_le.mpr hroomy.1), RepeaterStream.addressStrs]
  split
  · next hfound =>
    rw [indexOf_isSome_iff (withPort_ne_nil _)] at hfound
    rw [if_neg (Nat.not_le.mpr (hroomy.2 hfound))]
  · rfl

theorem roomy_of_repStrs (hsome : (repStrs s data).isSome) : Roomy s data := by
  rw [repStrs] at hsome
  split at hsome
  · cases hsome
  · next hin =>
    refine ⟨Nat.not_le.mp hin, fun hinfix => ?_⟩
    rw [if_pos ((indexOf_isSome_iff (withPort_ne_nil _)).mpr hinfix)] at hsome
    split at hsome
    · cases hsome
    · next hout => exact Nat.not_le.mp hout

/-- What `thread_run` replaces keeps its length. -/
theorem threadRunBody_eq (hplain : 0 ∉ data) (hroomy : Roomy s data) :
    ∃ data', threadRunBody s data = some data' ∧ data'.length = data.length ∧
      if (s.addressStrs data).1.length = (s.addressStrs data).2.length then
        ∃ k, Replaced (s.addressStrs data).1 (s.addressStrs data).2 k data data'
      else data' = data := by
  have hne := s.addressStrs_ne_nil data
  have hbody : threadRunBody s data = some (if (s.addressStrs data).1.length = (s.addressStrs data).2.length then
      replaceFound data (s.addressStrs data).1 (s.addressStrs data).2 else data) := by
    rw [threadRunBody, cstr_of_notMem hplain, repStrs_eq data hroomy, Option.map_some, strReplaceInPlace,
      cstr_of_notMem hplain, List.drop_length, List.append_nil, replaceFound]
    split_ifs <;> rfl
  refine ⟨_, hbody, ?_⟩
  split
  · next hlen =>
    have hfound : ∃ k, Replaced (s.addressStrs data).1 (s.addressStrs data).2 k data _ :=
      replaceFound_replaced hne data
    obtain ⟨k, hk⟩ := hfound
    exact ⟨(hk.length_eq_iff hne).mpr (.inr hlen), k, hk⟩
  · exact ⟨rfl, rfl⟩

theorem roomy_of_threadRunBody (hplain : 0 ∉ data) (hsome : (threadRunBody s data).isSome) : Roomy s data := by
  rw [threadRunBody, cstr_of_notMem hplain, Option.isSome_map] at hsome
  exact roomy_of_repStrs hsome

end MainCgi

/-! ## What the client gets -/

/-- What was sent is a head and then this body, of the length that the head announces. -/
def Framed (sent body : List UInt8) : Prop :=
  ∃ n, httpHeardGetlength sent = some n ∧ sent.drop n = body ∧ contentLengths (sent.take n) = [some body.length]

theorem ResponseHead.framed (h : ResponseHead) {body : List UInt8}
    (hlength : contentLengths h.bytes = [some body.length]) : Framed (h.bytes ++ body) body :=
  ⟨h.bytes.length, h.httpHeardGetlength_bytes body, List.drop_left, by rwa [h.take_bytes]⟩

/-- What comes before the body is the head. -/
theorem Framed.head {p body : List UInt8} (h : Framed (p ++ body) body) :
    IsHead p ∧ contentLengths p = [some body.length] := by
  obtain ⟨n, hn, hdrop, hlength⟩ := h
  obtain ⟨hlen, hhead⟩ := httpHeardGetlength_eq hn
  have hcut := congrArg List.length (List.take_append_drop n (p ++ body))
  rw [List.length_append, hlen, hdrop, List.length_append] at hcut
  obtain rfl : n = p.length := by omega
  rw [List.take_left] at hhead hlength
  exact ⟨hhead, hlength⟩

section Relaying

variable {sock : Nat → Answer} {s : RepeaterStream} {r : Response}

theorem Response.body_le (r : Response) : r.body.length ≤ buffSize := Nat.le_of_add_left_le r.fits

theorem Response.body_lt (r : Response) : r.body.length < 2147483648 :=
  Nat.lt_of_le_of_lt r.body_le (by decide)

theorem Response.copy_lt (r : Response) {rest : List UInt8} :
    (cstr (strndup (r.head.bytes ++ rest) r.head.bytes.length)).length < 2147483648 := by
  have hcopy := r.head.length_copy_le rest
  have hfits : r.head.bytes.length ≤ buffSize := Nat.le_of_add_right_le r.fits
  rw [buffSize] at hfits
  omega

/-- The length of an ONVIF body fits into an `int`. -/
def onvifLength (s : RepeaterStream) (r : Response) : Fin 2147483648 :=
  ⟨(onvifBody s r.body).length, s.length_onvifBody r.body_le⟩

/-- Once the body is complete, the ONVIF path sends the head with the new length, and then the new body. -/
theorem loopHttpResponseOnvif_eq (sock : Nat → Answer) (s : RepeaterStream) (c : Chunking .onvif r) (fuel : Nat)
    (out : Sink UInt8) :
    loopHttpResponseOnvif sock s r.body.length c.arrivals fuel (r.head.bytes ++ c.early) out =
        (loopHttpHeadResponseInOut sock (.onvif (onvifLength s r)) fuel (r.head.bytes ++ c.early) out).map
          (·.send sock (onvifBody s r.body)) ∨
      loopHttpResponseOnvif sock s r.body.length c.arrivals fuel (r.head.bytes ++ c.early) out = none ∧
        fuel ≤ c.arrivals.length := by
  have hpos := List.length_pos_iff.mpr r.body_ne
  have hearly : c.early.length ≤ r.body.length := by
    rw [← c.whole, List.length_append]
    exact Nat.le_add_right _ _
  simp only [loopHttpResponseOnvif, r.head.httpHeardGetlength_bytes, List.drop_left, Int.toNat_natCast]
  rw [if_pos (by omega), if_neg (by omega), List.take_of_length_le hearly]
  have hloop : onvifLoop r.body.length fuel c.arrivals c.early = some r.body ∨ _ := onvifLoop_whole c.whole r.body_le
  rcases hloop with hloop | ⟨hloop, hfuel⟩
  · left
    have hlen := s.length_onvifBody r.body_le
    simp only [hloop, Option.bind_some, Nat.lt_irrefl, if_false, cstr_of_notMem r.body_plain, dif_pos hlen]
    rfl
  · right
    rw [hloop]
    exact ⟨rfl, hfuel⟩

/-- With a NUL in its head, a response for ONVIF is not relayed. -/
theorem relayResponse_onvif_nul (hnul : 0 ∈ r.head.bytes) (c : Chunking .onvif r) (fuel : Nat) (out : Sink UInt8) :
    relayResponse sock s .onvif c.arrivals fuel (r.head.bytes ++ c.early) out = none := by
  simp only [relayResponse, r.head.httpHeardGetlength_bytes]
  rcases r.head.responseContentLength_eq r.announced r.body_lt c.early with hlength | ⟨-, hlength⟩
  · rw [hlength]
    rcases loopHttpResponseOnvif_eq sock s c fuel out with hloop | ⟨hloop, -⟩
    · rw [hloop, onvif_head_nul r.head c.early hnul]
      rfl
    · exact hloop
  · rw [hlength]
    simp only [loopHttpResponseOnvif, r.head.httpHeardGetlength_bytes, Int.lt_irrefl, gt_iff_lt, if_false]

/-- Without one, the client gets the head with the new length and the new body. -/
theorem relayResponse_onvif (hsock : AcceptsAll sock) (hplain : 0 ∉ r.head.bytes) (c : Chunking .onvif r)
    (out : Sink UInt8) :
    ∃ fuel out', relayResponse sock s .onvif c.arrivals fuel (r.head.bytes ++ c.early) out = some out' ∧
      out'.delivered =
        out.delivered ++ ((r.head.withLength (onvifBody s r.body).length).bytes ++ onvifBody s r.body) := by
  have hlength :=
    (r.head.responseContentLength_eq r.announced r.body_lt c.early).resolve_right fun h => hplain h.1
  -- a turn for everything that arrives, and for every line
  obtain ⟨fuel, hfuel, hfuel'⟩ : ∃ fuel, c.arrivals.length < fuel ∧ r.head.lines.length + 1 < fuel :=
    ⟨c.arrivals.length + r.head.lines.length + 2, by omega, by omega⟩
  have hloop := (loopHttpResponseOnvif_eq sock s c fuel out).resolve_right fun h => Nat.not_le.mpr hfuel h.2
  obtain ⟨sent, hsent, hdelivered⟩ := onvif_head r.head c.early hsock hplain r.short (onvifLength s r) hfuel' out
  refine ⟨fuel, sent.send sock (onvifBody s r.body), ?_, ?_⟩
  · simp only [relayResponse, r.head.httpHeardGetlength_bytes, hlength, hloop, hsent, Option.map_some]
  · rw [hsock.send (s.length_onvifBody r.body_le), hdelivered, List.append_assoc]
    rfl

/-- What the other path sends: the head up to a NUL, and the body from `thread_run`. -/
theorem relayResponse_nvr (hsock : AcceptsAll sock) (c : Chunking .cgiBinMainCgi r) {fuel : Nat}
    {out out' : Sink UInt8}
    (hrun : relayResponse sock s .cgiBinMainCgi c.arrivals fuel (r.head.bytes ++ c.early) out = some out') :
    ∃ data data', nvrBody s r.body = some data ∧ threadRunBody s data = some data' ∧
      out'.delivered =
        out.delivered ++ (cstr (strndup (r.head.bytes ++ c.early) r.head.bytes.length) ++ data') := by
  obtain ⟨n, -, htook⟩ := hsock.took out.calls
  simp only [relayResponse, loopHttpResponseNvr, r.head.httpHeardGetlength_bytes, List.drop_left, nvr_head,
    Option.bind_some, htook, Option.bind_eq_some_iff] at hrun
  obtain ⟨body, hloop, data, hdata, data', hdata', hbody⟩ := hrun
  have hlength : responseContentLength (r.head.bytes ++ c.early) r.head.bytes.length = r.body.length ∨
      responseContentLength (r.head.bytes ++ c.early) r.head.bytes.length = 0 :=
    (r.head.responseContentLength_eq r.announced r.body_lt c.early).imp_right And.right
  have hwhole : nvrLoop _ fuel c.arrivals c.early = some r.body ∨ _ :=
    nvrLoop_whole hlength c.whole (c.room rfl) (c.in_time rfl)
  rw [hloop, Option.some.injEq] at hwhole
  obtain rfl : body = r.body := hwhole.resolve_right fun h => by cases h.1
  refine ⟨data, data', hdata, hdata', ?_⟩
  rw [bodyLoop_delivers hbody, hsock.send r.copy_lt, List.append_assoc]

/-- It comes to an end when the bodies have room. -/
theorem relayResponse_nvr_isSome (hsock : AcceptsAll sock) (c : Chunking .cgiBinMainCgi r) {data data' : List UInt8}
    (hdata : nvrBody s r.body = some data) (hdata' : threadRunBody s data = some data')
    (hlen : data'.length < 2147483648) (out : Sink UInt8) :
    ∃ fuel out', relayResponse sock s .cgiBinMainCgi c.arrivals fuel (r.head.bytes ++ c.early) out = some out' := by
  obtain ⟨n, -, htook⟩ := hsock.took out.calls
  have hlength : responseContentLength (r.head.bytes ++ c.early) r.head.bytes.length = r.body.length ∨
      responseContentLength (r.head.bytes ++ c.early) r.head.bytes.length = 0 :=
    (r.head.responseContentLength_eq r.announced r.body_lt c.early).imp_right And.right
  have hwhole : nvrLoop _ (c.arrivals.length + 1) c.arrivals c.early = some r.body ∨ _ :=
    nvrLoop_whole hlength c.whole (c.room rfl) (c.in_time rfl)
  have hloop := hwhole.resolve_right fun h => Nat.not_succ_le_self _ h.2
  obtain ⟨out', hbody⟩ := hsock.bodyLoop hlen c.arrivals.length
    (out.send sock (cstr (strndup (r.head.bytes ++ c.early) r.head.bytes.length)))
  refine ⟨c.arrivals.length + 1, out', ?_⟩
  simp only [relayResponse, loopHttpResponseNvr, r.head.httpHeardGetlength_bytes, List.drop_left, nvr_head,
    Option.bind_some, htook, hloop, hdata, hdata', hbody]

/-- On the path for `main-cgi` the head keeps its length, so the body has to. -/
theorem same_length_of_framed (hsock : AcceptsAll sock) (c : Chunking .cgiBinMainCgi r) {fuel : Nat}
    {out out' : Sink UInt8} {sent body : List UInt8}
    (hrun : relayResponse sock s .cgiBinMainCgi c.arrivals fuel (r.head.bytes ++ c.early) out = some out')
    (hdelivered : out'.delivered = out.delivered ++ sent)
    (hbody : s.AddressesReplaced .cgiBinMainCgi r.body body) (hframed : Framed sent body) :
    0 ∉ r.head.bytes ∧ (¬quoted s.inRemote.ip <:+: r.body ∨ s.inRemote.ip.length = s.outLocal.ip.length) ∧
      Roomy s r.body := by
  obtain ⟨data, data', hdata, hdata', hsent⟩ := relayResponse_nvr hsock c hrun
  obtain ⟨k, hk⟩ := nvrBody_replaced r.body_plain hdata
  have hplain := not_mem_data r.body_plain hk
  have hroomy := roomy_of_threadRunBody hplain (Option.isSome_of_eq_some hdata')
  obtain ⟨data'', hdata'', hlen, hreplaced⟩ := threadRunBody_eq hplain hroomy
  obtain rfl : data' = data'' := Option.some.inj (hdata'.symm.trans hdata'')
  -- the body that was sent is the one the addresses were replaced in
  obtain rfl : body = data' := hbody.unique s ⟨data, ⟨k, hk⟩, hreplaced⟩
  rw [hsent, List.append_cancel_left_eq] at hdelivered
  subst hdelivered
  obtain ⟨hhead, hlength⟩ := hframed.head
  have hnonul : 0 ∉ r.head.bytes := by
    intro hnul
    obtain ⟨p, -, -, ⟨more, hp⟩, hcopy, -⟩ := r.head.strndup_nul c.early hnul
    rw [hcopy] at hhead
    exact r.head.not_isHead_of_nul hp hhead
  rw [r.head.strndup_plain c.early hnonul, cstr_of_notMem hnonul, r.announced, List.cons.injEq,
    Option.some.injEq] at hlength
  have hsame := (hk.length_eq_iff (quoted_ne_nil _)).mp (hlen.symm.trans hlength.1.symm)
  rw [length_quoted, length_quoted, Nat.add_right_cancel_iff] at hsame
  refine ⟨hnonul, hsame, hroomy.1, fun hin => ?_⟩
  exact hroomy.2 ((withPort_infix_iff hk).mp hin)

/-- A body of the same length arrives behind the head. -/
theorem framed_nvr (hsock : AcceptsAll sock) (c : Chunking .cgiBinMainCgi r) (hnonul : 0 ∉ r.head.bytes)
    (hsame : ¬quoted s.inRemote.ip <:+: r.body ∨ s.inRemote.ip.length = s.outLocal.ip.length)
    (hroomy : Roomy s r.body) (out : Sink UInt8) :
    ∃ fuel out' sent body,
      relayResponse sock s .cgiBinMainCgi c.arrivals fuel (r.head.bytes ++ c.early) out = some out' ∧
        out'.delivered = out.delivered ++ sent ∧ s.AddressesReplaced .cgiBinMainCgi r.body body ∧
        Framed sent body := by
  obtain ⟨data, hdata, hlen⟩ := nvrBody_isSome r.body_plain r.body_le hsame
  obtain ⟨k, hk⟩ := nvrBody_replaced r.body_plain hdata
  have hroomy' : Roomy s data := ⟨hroomy.1, fun h => hroomy.2 ((withPort_infix_iff hk).mpr h)⟩
  obtain ⟨data', hdata', hlen', hreplaced⟩ := threadRunBody_eq (not_mem_data r.body_plain hk) hroomy'
  have hlength : data'.length = r.body.length := hlen'.trans hlen
  have hint : data'.length < 2147483648 := hlength ▸ r.body_lt
  obtain ⟨fuel, out', hrun⟩ := relayResponse_nvr_isSome hsock c hdata hdata' hint out
  obtain ⟨data₁, data₁', hdata₁, hdata₁', hsent⟩ := relayResponse_nvr hsock c hrun
  obtain rfl : data = data₁ := Option.some.inj (hdata.symm.trans hdata₁)
  obtain rfl : data' = data₁' := Option.some.inj (hdata'.symm.trans hdata₁')
  rw [r.head.strndup_plain c.early hnonul, cstr_of_notMem hnonul] at hsent
  refine ⟨fuel, out', _, data', hrun, hsent, ⟨data, ⟨k, hk⟩, hreplaced⟩, r.head.framed ?_⟩
  rw [hlength]
  exact r.announced

end Relaying

/-! ## A response -/

theorem acceptsAll_took : AcceptsAll fun _ => .took 2147483648 := by
  intro _ len hlen
  exact Nat.min_eq_right (Nat.le_of_lt hlen)

theorem serverAddress_dotted : ∀ b ∈ serverAddress.ip, b = 46 ∨ 48 ≤ b ∧ b ≤ 57 := by decide +kernel

theorem proxyAddress_dotted : ∀ b ∈ proxyAddress.ip, b = 46 ∨ 48 ≤ b ∧ b ≤ 57 := by decide +kernel

/-- The device at 10.0.0.1:80, and the proxy at 192.168.0.2:80. -/
def deviceStream : RepeaterStream where
  inRemote := ⟨serverAddress, serverAddress_dotted⟩
  outLocal := ⟨proxyAddress, proxyAddress_dotted⟩
  toPortRtsp := 0
  serverPortRtsp := 0
  toPortRtsp_lt := Nat.succ_pos _
  serverPortRtsp_lt := Nat.succ_pos _

def okHead : ResponseHead where
  lines := [text "HTTP/1.1 200 OK\r", text "Content-Length: 27\r"]
  blank := [13, 10]
  lines_ne := List.cons_ne_nil _ _
  one_line := by decide +kernel
  not_blank := by decide +kernel
  blank_eq := .inr rfl

/-- A body with the address of the device in a URL and in quotes. -/
def addressResponse : Response where
  head := okHead
  body := text "http://10.0.0.1/ \"10.0.0.1\""
  body_plain := by decide +kernel
  body_ne := by decide +kernel
  announced := by decide +kernel
  short := by decide +kernel
  fits := by decide +kernel

/-- All of it arrives at once. -/
def atOnce (path : Path) : Chunking path addressResponse where
  early := addressResponse.body
  arrivals := []
  whole := List.append_nil _
  room := fun _ => .inr rfl
  in_time := fun _ _ ha => absurd ha List.not_mem_nil

end ProgrammingPath.Proxy
