import Mathlib.Algebra.Group.Nat.Defs
import ProgrammingPath.Lib.StreamSocket

/-!
# The messages of the bind client (`BindClinet.c`)

`BindClient_send` sends a byte `0xEE`, the length in digits to the base 128, the lowest first, and the
payload; the older version under `#if 0` sends the type behind the first byte and a checksum at the end as
well. `_t_bindclient` still reads what the older version sends: two bytes, a length, a payload and a
checksum. So it takes a byte of the length for the type, and what it reports is never what was sent; and
since `sock_gets` does not stop at the end of the stream, it does not end when the connection is closed.
-/

namespace ProgrammingPath.BindClient

open ProgrammingPath.Lib

/-! ## The sender -/

/-- `BindClient_calc2buflen`, the bytes that it puts into the buffer. -/
def calc2buflen (len : Nat) : List UInt8 :=
  let d := UInt8.ofNat (len % 128)
  if 0 < len / 128 then (d ||| 0x80) :: calc2buflen (len / 128) else [d]
termination_by len
decreasing_by omega

/-- What the socket says to a `send`: that it took at most so much, try again, or an error. -/
inductive Sent
  | took (n : Nat)
  | again
  | error
  deriving DecidableEq

/-- What `sock_send` returns, what went out, and what the socket will say next. -/
structure Sending where
  ret : UInt64
  out : List UInt8
  answers : List Sent

/-- `sock_send`. `none` when a call of `send` does not come back. -/
def sockSend (data : List UInt8) : List Sent → Nat → Option Sending
  | [], _ => none
  | .again :: answers, slen => sockSend data answers slen
  | .error :: answers, _ => some ⟨-1, [], answers⟩
  | .took n :: answers, slen =>
    let ret := min n (data.length - slen)
    let piece := (data.drop slen).take ret
    if data.length ≤ slen + ret then some ⟨UInt64.ofNat (slen + ret), piece, answers⟩
    else (sockSend data answers (slen + ret)).map fun s => { s with out := piece ++ s.out }

/-- `BindClient_send`: what it returns and what went out. The type is not used. -/
def send (answers : List Sent) (_type : UInt8) (data : List UInt8) : Option (Int × List UInt8) := do
  let head ← sockSend (0xEE :: calc2buflen data.length) answers 0
  if 0 < head.ret then
    let body ← sockSend data head.answers 0
    some (0, head.out ++ body.out)
  else some (0, head.out)

/-! ## The receiver -/

/-- `sock_gets`, with the bytes that are there already: what it read, or nothing after an error. `none` when it
does not come back after so many calls of `recv`. -/
def sockGets : Nat → Sock → Nat → List UInt8 → Option (Option (List UInt8) × Sock)
  | 0, _, _, _ => none
  | calls + 1, s, len, c =>
    match s.recv (len - c.length) with
    | none => none
    | some (.again, s) => sockGets calls s len c
    | some (.error, s) => some (none, s)
    | some (.bytes b, s) =>
      if len ≤ (c ++ b).length then some (some (c ++ b), s) else sockGets calls s len (c ++ b)

/-- What `BindClient_caclfrombuff` leaves behind; `ok` says that it returns a positive number. -/
structure LengthField where
  value : Nat
  crc : UInt8
  ok : Bool
  sock : Sock

/-- The loop of `BindClient_caclfrombuff`, when so many bytes may still be read. -/
def caclfrombuff (calls : Nat) : Nat → Sock → Nat → Nat → UInt8 → Option LengthField
  | 0, s, value, _, crc => some ⟨value, crc, true, s⟩
  | left + 1, s, value, multiplier, crc => do
    let (got, s) ← sockGets calls s 1 []
    match got with
    | none => some ⟨value, crc, false, s⟩
    | some buf =>
      let c := buf.headD 0
      let value := value + (c &&& 127).toNat * multiplier
      if c &&& 128 ≠ 0 then caclfrombuff calls left s value (multiplier * 128) (crc + c)
      else some ⟨value, crc + c, true, s⟩

/-- What is handed to `_pfun_messArrived`: the type, the block at `data` and the length. -/
structure Report where
  type : UInt8
  data : List UInt8
  len : Nat

/-- What becomes of the `while (1)` of `_t_bindclient` in one turn. -/
inductive Turn
  | exit
  | next (report : Option Report) (s : Sock) (data : List UInt8)

/-- The end of a turn: the checksum. -/
def turnCrc (calls : Nat) (s : Sock) (type crc : UInt8) (data : List UInt8) (len : Nat) : Option Turn := do
  let (got, s) ← sockGets calls s 1 []
  match got with
  | none => some .exit
  | some buf => some (.next (if ~~~crc + 1 = buf.headD 0 then some ⟨type, data, len⟩ else none) s data)

/-- One turn. `data` is the block that was read last. -/
def turn (calls : Nat) (s : Sock) (data : List UInt8) : Option Turn := do
  let (got, s) ← sockGets calls s 2 []
  match got with
  | none => some .exit
  | some buf =>
    let type := buf.getD 1 0
    let field ← caclfrombuff calls 4 s 0 1 (buf.getD 0 0 + type)
    if 0 < field.value then do
      let (got, s) ← sockGets calls field.sock field.value []
      match got with
      | none => some .exit
      | some data => turnCrc calls s type field.crc data field.value
    else turnCrc calls field.sock type field.crc data field.value

/-- What `_t_bindclient` has reported, and whether its loop has ended, after so many turns, or in the turn that
does not come back. -/
def tBindclient (calls : Nat) : Nat → Sock → List UInt8 → List Report × Bool
  | 0, _, _ => ([], false)
  | turns + 1, s, data =>
    match turn calls s data with
    | none => ([], false)
    | some .exit => ([], true)
    | some (.next report s data) =>
      let (reports, ended) := tBindclient calls turns s data
      (report.toList ++ reports, ended)

/-- What the receiver waits for: the type behind the first byte, and a checksum of the bytes before the payload. -/
example : (tBindclient 3 1 ⟨[.bytes [0xEE], .again, .bytes [7, 2, 65], .bytes [66, 9]], false⟩ []).1.map
    (fun r => (r.type, r.data, r.len)) = [(7, [65, 66], 2)] := by decide

/-! ## The length -/

theorem calc2buflen_small {n : Nat} (h : n < 128) : calc2buflen n = [UInt8.ofNat (n % 128)] := by
  rw [calc2buflen]
  exact if_neg (by omega)

theorem calc2buflen_large {n : Nat} (h : 128 ≤ n) :
    calc2buflen n = (UInt8.ofNat (n % 128) ||| 0x80) :: calc2buflen (n / 128) := by
  rw [calc2buflen]
  exact if_pos (by omega)

/-- The number of the bytes, for `k` digits. -/
theorem length_calc2buflen {k n : Nat} (h : n < 128 ^ (k + 1)) : (calc2buflen n).length ≤ k + 1 := by
  induction k generalizing n with
  | zero =>
    have hone : calc2buflen n = [UInt8.ofNat (n % 128)] := calc2buflen_small (by omega)
    exact Nat.le_of_eq (congrArg List.length hone)
  | succ k ih =>
    rcases Nat.lt_or_ge n 128 with hn | hn
    · rw [calc2buflen_small hn, List.length_singleton]
      omega
    · rw [calc2buflen_large hn, List.length_cons]
      have hdiv : n / 128 < 128 ^ (k + 1) := Nat.div_lt_of_lt_mul (by rwa [Nat.pow_succ'] at h)
      exact Nat.succ_le_succ (ih hdiv)

/-- The bytes at the front of a stream that `BindClient_caclfrombuff` takes for a length. -/
def lengthBytes : Nat → List UInt8 → List UInt8
  | 0, _ => []
  | _ + 1, [] => []
  | left + 1, c :: rest => c :: if c &&& 128 ≠ 0 then lengthBytes left rest else []

/-- The number that they stand for. -/
def lengthValue : List UInt8 → Nat
  | [] => 0
  | c :: rest => (c &&& 127).toNat + 128 * lengthValue rest

theorem digit_last : ∀ n < 128, (UInt8.ofNat n) &&& 128 = 0 := by decide +kernel

theorem digit_more : ∀ n < 128, (UInt8.ofNat n ||| 0x80) &&& 128 ≠ 0 := by decide +kernel

theorem digit_last_value : ∀ n < 128, ((UInt8.ofNat n) &&& 127).toNat = n := by decide +kernel

theorem digit_more_value : ∀ n < 128, ((UInt8.ofNat n ||| 0x80) &&& 127).toNat = n := by decide +kernel

/-- The bytes of a length are what is read of them. -/
theorem lengthBytes_calc2buflen {left n : Nat} (h : (calc2buflen n).length ≤ left) (rest : List UInt8) :
    lengthBytes left (calc2buflen n ++ rest) = calc2buflen n := by
  induction left generalizing n with
  | zero =>
    have hnil := List.eq_nil_of_length_eq_zero (Nat.le_zero.mp h)
    rw [hnil]
    rfl
  | succ left ih =>
    have hmod : n % 128 < 128 := Nat.mod_lt n (by omega)
    rcases Nat.lt_or_ge n 128 with hn | hn
    · rw [calc2buflen_small hn, List.singleton_append, lengthBytes,
        if_neg (not_not.mpr (digit_last _ hmod))]
    · rw [calc2buflen_large hn] at h ⊢
      rw [List.cons_append, lengthBytes, if_pos (digit_more _ hmod), ih (Nat.le_of_succ_le_succ h)]

/-! ## What is read -/

variable {calls : Nat} {s : Sock}

/-- `sock_gets` on a sound socket takes the next bytes of the stream. -/
theorem sockGets_sound (hs : s.Sound) {len : Nat} {c : List UInt8} (hlen : c.length ≤ len)
    {got : Option (List UInt8)} {s' : Sock} (h : sockGets calls s len c = some (got, s')) :
    ∃ b, got = some (c ++ b) ∧ (c ++ b).length = len ∧ s.stream = b ++ s'.stream ∧ s'.Sound := by
  induction calls generalizing s c with
  | zero => exact absurd h (Option.some_ne_none _).symm
  | succ calls ih =>
    rw [sockGets] at h
    split at h
    · exact absurd h (Option.some_ne_none _).symm
    · next s₁ hrecv =>
      obtain ⟨b, hgot, hb, hstream, hs'⟩ := ih (hs.recv hrecv).1 hlen h
      exact ⟨b, hgot, hb, (Sock.recv_stream hrecv).trans hstream, hs'⟩
    · next s₁ hrecv => exact absurd rfl (hs.recv hrecv).2
    · next b s₁ hrecv =>
      have hle : b.length ≤ len - c.length := Sock.recv_length_le hrecv
      have hlen' : (c ++ b).length ≤ len := by
        rw [List.length_append]
        omega
      have hstream₁ : s.stream = b ++ s₁.stream := Sock.recv_stream hrecv
      split at h
      · next hdone =>
        cases h
        exact ⟨b, rfl, Nat.le_antisymm hlen' hdone, hstream₁, (hs.recv hrecv).1⟩
      · obtain ⟨b', hgot, hb, hstream, hs'⟩ := ih (hs.recv hrecv).1 hlen' h
        refine ⟨b ++ b', ?_, ?_, ?_, hs'⟩
        · rw [← List.append_assoc]
          exact hgot
        · rw [← List.append_assoc]
          exact hb
        · rw [hstream₁, hstream, List.append_assoc]

/-- Calls of `sock_gets` with an empty buffer. -/
theorem sockGets_nil (hs : s.Sound) {len : Nat} {got : Option (List UInt8)} {s' : Sock}
    (h : sockGets calls s len [] = some (got, s')) :
    ∃ b, got = some b ∧ b.length = len ∧ s.stream = b ++ s'.stream ∧ s'.Sound :=
  sockGets_sound hs (Nat.zero_le len) h

/-- `BindClient_caclfrombuff` on a sound socket takes the bytes of the length. -/
theorem caclfrombuff_sound (hs : s.Sound) {left value multiplier : Nat} {crc : UInt8} {f : LengthField}
    (h : caclfrombuff calls left s value multiplier crc = some f) :
    s.stream = lengthBytes left s.stream ++ f.sock.stream ∧ f.sock.Sound ∧
      f.value = value + multiplier * lengthValue (lengthBytes left s.stream) ∧
      (left ≠ 0 → lengthBytes left s.stream ≠ []) := by
  induction left generalizing s value multiplier crc with
  | zero =>
    cases h
    exact ⟨rfl, hs, rfl, fun hne => absurd rfl hne⟩
  | succ left ih =>
    rw [caclfrombuff] at h
    obtain ⟨⟨got, s₁⟩, hgets, h⟩ := Option.bind_eq_some_iff.mp h
    obtain ⟨b, rfl, hb, hstream, hs₁⟩ := sockGets_nil hs hgets
    obtain ⟨c, rfl⟩ := List.length_eq_one_iff.mp hb
    have hbytes : lengthBytes (left + 1) s.stream =
        c :: if c &&& 128 ≠ 0 then lengthBytes left s₁.stream else [] := by
      rw [hstream]
      rfl
    have h' : (if c &&& 128 ≠ 0 then
        caclfrombuff calls left s₁ (value + (c &&& 127).toNat * multiplier) (multiplier * 128) (crc + c)
        else some ⟨value + (c &&& 127).toNat * multiplier, crc + c, true, s₁⟩) = some f := h
    rw [hbytes]
    by_cases hmore : c &&& 128 ≠ 0
    · rw [if_pos hmore] at h' ⊢
      obtain ⟨hfield, hsound, hvalue, -⟩ := ih hs₁ h'
      refine ⟨?_, hsound, ?_, fun _ => List.cons_ne_nil _ _⟩
      · rw [hstream, List.cons_append, List.cons_append, ← hfield]
        rfl
      · rw [hvalue, lengthValue, Nat.mul_add, Nat.mul_assoc, Nat.add_assoc, Nat.mul_comm multiplier (c &&& 127).toNat]
    · rw [if_neg hmore] at h' ⊢
      cases h'
      refine ⟨hstream, hs₁, ?_, fun _ => List.cons_ne_nil _ _⟩
      rw [lengthValue, lengthValue, Nat.mul_zero, Nat.add_zero, Nat.mul_comm]

/-- What the end of a turn has read: one byte. -/
theorem turnCrc_sound (hs : s.Sound) {type crc : UInt8} {data : List UInt8} {len : Nat} {t : Turn}
    (h : turnCrc calls s type crc data len = some t) :
    ∃ report s' last, t = .next report s' data ∧ s'.Sound ∧ s.stream = last :: s'.stream ∧
      ∀ r ∈ report, r.len = len := by
  rw [turnCrc] at h
  obtain ⟨⟨got, s'⟩, hgets, h⟩ := Option.bind_eq_some_iff.mp h
  obtain ⟨b, rfl, hb, hstream, hs'⟩ := sockGets_nil hs hgets
  obtain ⟨last, rfl⟩ := List.length_eq_one_iff.mp hb
  cases h
  refine ⟨_, s', last, rfl, hs', hstream, fun r hr => ?_⟩
  split at hr
  · cases hr
    rfl
  · exact absurd hr (Option.not_mem_none r)

/-- What one turn on a sound socket has read: two bytes, the bytes of a length, so many bytes, and one. -/
theorem turn_sound (hs : s.Sound) {data : List UInt8} {t : Turn} (h : turn calls s data = some t) :
    ∃ report s' data' head field body, t = .next report s' data' ∧ s'.Sound ∧ head.length = 2 ∧
      field = lengthBytes 4 (s.stream.drop 2) ∧ field ≠ [] ∧ body.length = lengthValue field + 1 ∧
      s.stream = head ++ (field ++ (body ++ s'.stream)) ∧
      ∀ r ∈ report, r.len = lengthValue field := by
  rw [turn] at h
  obtain ⟨⟨got, s₁⟩, hgets, h⟩ := Option.bind_eq_some_iff.mp h
  obtain ⟨head, rfl, hhead, hstream, hs₁⟩ := sockGets_nil hs hgets
  obtain ⟨f, hcacl, h⟩ := Option.bind_eq_some_iff.mp h
  obtain ⟨hfield, hs₂, hvalue, hne⟩ := caclfrombuff_sound hs₁ hcacl
  have hdrop : s.stream.drop 2 = s₁.stream := by rw [hstream, ← hhead, List.drop_left]
  rw [Nat.zero_add, Nat.one_mul] at hvalue
  rw [hdrop]
  by_cases hpos : 0 < f.value
  · rw [if_pos hpos] at h
    obtain ⟨⟨got, s₃⟩, hgets₃, h⟩ := Option.bind_eq_some_iff.mp h
    obtain ⟨body, rfl, hbody, hstream₃, hs₃⟩ := sockGets_nil hs₂ hgets₃
    obtain ⟨report, s', last, rfl, hs', hlast, hlen⟩ := turnCrc_sound hs₃ h
    refine ⟨report, s', body, head, _, body ++ [last], rfl, hs', hhead, rfl, hne (by decide), ?_, ?_, ?_⟩
    · rw [List.length_append, hbody, hvalue, List.length_singleton]
    · rw [hstream, List.append_assoc, List.singleton_append, ← hlast, ← hstream₃, ← hfield]
    · rw [← hvalue]
      exact hlen
  · rw [if_neg hpos] at h
    obtain ⟨report, s', last, rfl, hs', hlast, hlen⟩ := turnCrc_sound hs₂ h
    refine ⟨report, s', data, head, _, [last], rfl, hs', hhead, rfl, hne (by decide), ?_, ?_, ?_⟩
    · rw [← hvalue, Nat.eq_zero_of_not_pos hpos]
      rfl
    · rw [hstream, List.singleton_append, ← hlast, ← hfield]
    · rw [← hvalue]
      exact hlen

/-! ## What is sent -/

theorem sockSend_out {data : List UInt8} {answers : List Sent} {slen : Nat} {r : Sending}
    (hanswers : Sent.error ∉ answers) (hslen : slen ≤ data.length) (h : sockSend data answers slen = some r) :
    r.out = data.drop slen ∧ r.ret = UInt64.ofNat data.length ∧ Sent.error ∉ r.answers := by
  induction answers generalizing slen r with
  | nil => exact absurd h (Option.some_ne_none _).symm
  | cons a answers ih =>
    rw [List.mem_cons, not_or] at hanswers
    cases a with
    | again => exact ih hanswers.2 hslen h
    | error => exact absurd rfl hanswers.1
    | took n =>
      have hle : min n (data.length - slen) ≤ data.length - slen := Nat.min_le_right n _
      rw [sockSend] at h
      split at h
      · next hdone =>
        cases h
        refine ⟨List.take_of_length_le ?_, ?_, hanswers.2⟩
        · rw [List.length_drop]
          omega
        · exact congrArg UInt64.ofNat (by omega)
      · obtain ⟨r', hr', rfl⟩ := Option.map_eq_some_iff.mp h
        obtain ⟨hout, hret, hrest⟩ := ih hanswers.2 (by omega) hr'
        refine ⟨?_, hret, hrest⟩
        show (data.drop slen).take _ ++ r'.out = _
        rw [hout, ← List.drop_drop, List.take_append_drop]

/-- `BindClient_send` sends `0xEE`, the length and the payload. -/
theorem send_out {answers : List Sent} (hanswers : Sent.error ∉ answers) {type : UInt8} {data : List UInt8}
    (hlen : data.length < 2 ^ 28) {rc : Int} {out : List UInt8} (h : send answers type data = some (rc, out)) :
    out = 0xEE :: (calc2buflen data.length ++ data) := by
  rw [send] at h
  obtain ⟨head, hhead, h⟩ := Option.bind_eq_some_iff.mp h
  obtain ⟨hout, hret, hrest⟩ := sockSend_out hanswers (Nat.zero_le _) hhead
  have hfield : (calc2buflen data.length).length ≤ 4 := length_calc2buflen (by omega)
  have hpos : 0 < head.ret := by
    rw [hret, UInt64.lt_iff_toNat_lt, UInt64.toNat_ofNat', List.length_cons]
    show 0 < _
    omega
  rw [if_pos hpos] at h
  obtain ⟨body, hbody, h⟩ := Option.bind_eq_some_iff.mp h
  obtain ⟨hout', -⟩ := sockSend_out hrest (Nat.zero_le _) hbody
  cases h
  rw [hout, hout']
  rfl

/-! ## What is reported -/

/-- A message takes four bytes more than its payload. -/
theorem report_len_le (hs : s.Sound) (turns : Nat) (data : List UInt8) :
    ∀ r ∈ (tBindclient calls turns s data).1, r.len + 4 ≤ s.stream.length := by
  induction turns generalizing s data with
  | zero => exact fun r hr => absurd hr List.not_mem_nil
  | succ turns ih =>
    intro r hr
    rw [tBindclient] at hr
    cases hturn : turn calls s data with
    | none =>
      rw [hturn] at hr
      exact absurd hr List.not_mem_nil
    | some t =>
      obtain ⟨report, s', data', head, field, body, rfl, hs', hhead, -, hne, hbody, hstream, hlen⟩ :=
        turn_sound hs hturn
      rw [hturn] at hr
      have hlength := congrArg List.length hstream
      rw [List.length_append, List.length_append, List.length_append, hhead, hbody] at hlength
      have hfield := List.length_pos_of_ne_nil hne
      rcases List.mem_append.mp hr with hr | hr
      · have heq := hlen r (Option.mem_toList.mp hr)
        omega
      · have hle := ih hs' data' r hr
        omega

/-- The loop does not end on a sound socket, not even behind the end of the stream. -/
theorem not_ended (hs : s.Sound) (turns : Nat) (data : List UInt8) :
    (tBindclient calls turns s data).2 = false := by
  induction turns generalizing s data with
  | zero => rfl
  | succ turns ih =>
    rw [tBindclient]
    cases hturn : turn calls s data with
    | none => rfl
    | some t =>
      obtain ⟨report, s', data', -, -, -, rfl, hs', -⟩ := turn_sound hs hturn
      exact ih hs' data'

/-- No report of what `BindClient_send` sent has its length: the byte behind `0xEE` belongs to the length and is
taken for the type, and there is no checksum. -/
theorem report_len_ne (hs : s.Sound) {payload : List UInt8} (hlen : payload.length < 2 ^ 28)
    (hsent : s.stream = 0xEE :: (calc2buflen payload.length ++ payload)) (turns : Nat) (data : List UInt8) :
    ∀ r ∈ (tBindclient calls turns s data).1, r.len ≠ payload.length := by
  have htotal : s.stream.length = 1 + (calc2buflen payload.length).length + payload.length := by
    rw [hsent, List.length_cons, List.length_append]
    omega
  rcases Nat.lt_or_ge payload.length 128 with hsmall | hlarge
  · -- the length is one byte
    rw [calc2buflen_small hsmall, List.length_singleton] at htotal
    intro r hr
    have hle := report_len_le hs turns data r hr
    omega
  · rw [calc2buflen_large hlarge, List.length_cons] at htotal
    rw [calc2buflen_large hlarge] at hsent
    cases turns with
    | zero => exact fun r hr => absurd hr List.not_mem_nil
    | succ turns =>
      intro r hr
      rw [tBindclient] at hr
      cases hturn : turn calls s data with
      | none =>
        rw [hturn] at hr
        exact absurd hr List.not_mem_nil
      | some t =>
        obtain ⟨report, s', data', head, field, body, rfl, hs', hhead, hfield, -, hbody, hstream, hreport⟩ :=
          turn_sound hs hturn
        rw [hturn] at hr
        -- what is read as the length is the rest of it
        have hrest : (calc2buflen (payload.length / 128)).length ≤ 4 := length_calc2buflen (by omega)
        have hfield' : field = calc2buflen (payload.length / 128) := by
          rw [hfield, hsent]
          exact lengthBytes_calc2buflen hrest payload
        have hlength := congrArg List.length hstream
        rw [List.length_append, List.length_append, List.length_append, hhead, hbody] at hlength
        rw [← hfield'] at htotal
        rcases List.mem_append.mp hr with hr | hr
        · have heq := hreport r (Option.mem_toList.mp hr)
          omega
        · have hle := report_len_le hs' turns data' r hr
          omega

/-- What the receiver of a message is told: the type, the length and the payload. -/
def Report.message (r : Report) : UInt8 × Nat × List UInt8 := (r.type, r.len, r.data.take r.len)

/-- **No message arrives.** Whatever is sent, and however it is cut into pieces, on the way out and on the way in,
the receiver never has reported just that message; and when the connection is closed, behind any byte, its loop
never ends. -/
theorem never_agree (type : UInt8) (payload : List UInt8) (hlen : payload.length ≤ 268435455)
    (answers : List Sent) (hanswers : Sent.error ∉ answers) (rc : Int) (out : List UInt8)
    (hsend : send answers type payload = some (rc, out)) :
    (∀ s : Sock, s.Sound → s.stream = out → ∀ calls turns,
      (tBindclient calls turns s []).1.map Report.message ≠ [(type, payload.length, payload)]) ∧
    ∀ (s : Sock) (cut : Nat), s.Sound → s.stream = out.take cut → s.closed = true → ∀ calls turns,
      (tBindclient calls turns s []).2 = false := by
  have hsmall : payload.length < 2 ^ 28 := Nat.lt_succ_of_le hlen
  have hout := send_out hanswers hsmall hsend
  refine ⟨fun s hs hstream calls turns heq => ?_, fun s cut hs _ _ calls turns => not_ended hs turns []⟩
  have hmem : (type, payload.length, payload) ∈ (tBindclient calls turns s []).1.map Report.message :=
    heq ▸ List.mem_singleton_self _
  obtain ⟨r, hr, hmessage⟩ := List.mem_map.mp hmem
  have hlen' : r.len = payload.length := congrArg (fun m => m.2.1) hmessage
  exact report_len_ne hs hsmall (hstream.trans hout) turns [] r hr hlen'

theorem send_letter : send [.took 8, .took 1] 1 [65] = some (0, [0xEE, 1, 65]) := by
  have hlen : calc2buflen 1 = [1] := calc2buflen_small (by omega)
  unfold send
  rw [List.length_singleton, hlen]
  decide

theorem never_agree_letter :
    (∀ s : Sock, s.Sound → s.stream = [0xEE, 1, 65] → ∀ calls turns,
      (tBindclient calls turns s []).1.map Report.message ≠ [(1, 1, [65])]) ∧
    ∀ (s : Sock) (cut : Nat), s.Sound → s.stream = [0xEE, 1, 65].take cut → s.closed = true → ∀ calls turns,
      (tBindclient calls turns s []).2 = false :=
  never_agree 1 [65] (by decide) [.took 8, .took 1] (by decide) 0 [0xEE, 1, 65] send_letter

/-- Of one letter that is sent nothing is reported, and the receiver does not see that the connection is closed. -/
theorem letter_lost : send [.took 8, .took 1] 1 [65] = some (0, [0xEE, 1, 65]) ∧
    ∀ calls turns, (tBindclient calls turns ⟨[.bytes [0xEE, 1, 65]], true⟩ []).1.map Report.message ≠ [(1, 1, [65])] ∧
      (tBindclient calls turns ⟨[.bytes [0xEE, 1, 65]], true⟩ []).2 = false := by
  let s : Sock := ⟨[.bytes [0xEE, 1, 65]], true⟩
  have hs : s.Sound := by unfold Sock.Sound; decide
  refine ⟨send_letter, fun calls turns => ⟨fun heq => ?_, not_ended hs turns []⟩⟩
  -- a message has four bytes at least
  cases hreports : (tBindclient calls turns s []).1 with
  | nil => exact absurd (hreports ▸ heq) (List.cons_ne_nil _ _).symm
  | cons r reports =>
    have hle : r.len + 4 ≤ 3 := report_len_le hs turns [] r (hreports ▸ List.mem_cons_self)
    omega

/-! ## A length comes through -/

/-- `sock_gets` for one byte, when there is one: the calls before are tried again or bring nothing. -/
theorem sockGets_one {c : UInt8} {l : List UInt8} (hs : s.Sound) (hstream : s.stream = c :: l) :
    ∃ s', s'.Sound ∧ s'.stream = l ∧ s'.arrivals.length ≤ s.arrivals.length ∧
      ∀ calls, s.arrivals.length ≤ calls → sockGets calls s 1 [] = some (some [c], s') := by
  obtain ⟨arrivals, closed⟩ := s
  induction arrivals with
  | nil => cases hstream
  | cons a rest ih =>
    have hrest : Sock.Sound ⟨rest, closed⟩ := fun hin => hs (List.mem_cons_of_mem a hin)
    have hlater (hnothing : a.data = []) (hturn : ∀ calls, sockGets (calls + 1) ⟨a :: rest, closed⟩ 1 [] =
        sockGets calls ⟨rest, closed⟩ 1 []) :
        ∃ s', s'.Sound ∧ s'.stream = l ∧ s'.arrivals.length ≤ (a :: rest).length ∧
          ∀ calls, (a :: rest).length ≤ calls → sockGets calls ⟨a :: rest, closed⟩ 1 [] = some (some [c], s') := by
      have hstream' : Sock.stream ⟨rest, closed⟩ = c :: l := by
        rw [← hstream, Sock.stream, Sock.stream, List.flatMap_cons, hnothing, List.nil_append]
      obtain ⟨s', hs', hl, hle, hgets⟩ := ih hrest hstream'
      refine ⟨s', hs', hl, Nat.le_succ_of_le hle, fun calls hcalls => ?_⟩
      obtain ⟨calls, rfl⟩ := Nat.exists_eq_succ_of_ne_zero (Nat.ne_zero_of_lt hcalls)
      rw [hturn, hgets calls (Nat.le_of_succ_le_succ hcalls)]
    cases a with
    | again => exact hlater rfl fun _ => rfl
    | error => exact absurd List.mem_cons_self hs
    | bytes piece =>
      rcases piece with _ | ⟨b, piece⟩
      · exact hlater rfl fun _ => rfl
      have hsplit : b :: (piece ++ rest.flatMap Arrival.data) = c :: l := hstream
      obtain ⟨rfl, hl⟩ := List.cons.inj hsplit
      rcases piece with _ | ⟨b', piece⟩
      · refine ⟨⟨rest, closed⟩, hrest, hl, Nat.le_succ _, fun calls hcalls => ?_⟩
        obtain ⟨calls, rfl⟩ := Nat.exists_eq_succ_of_ne_zero (Nat.ne_zero_of_lt hcalls)
        rfl
      · refine ⟨⟨.bytes (b' :: piece) :: rest, closed⟩, ?_, hl, Nat.le_refl _, fun calls hcalls => ?_⟩
        · rintro (_ | ⟨_, hin⟩)
          exact hrest hin
        · obtain ⟨calls, rfl⟩ := Nat.exists_eq_succ_of_ne_zero (Nat.ne_zero_of_lt hcalls)
          rfl

theorem caclfrombuff_last {left value multiplier : Nat} {crc c : UInt8} {s' : Sock}
    (hgets : sockGets calls s 1 [] = some (some [c], s')) (hc : c &&& 128 = 0) :
    caclfrombuff calls (left + 1) s value multiplier crc =
      some ⟨value + (c &&& 127).toNat * multiplier, crc + c, true, s'⟩ := by
  rw [caclfrombuff, hgets]
  exact if_neg (not_not.mpr hc)

theorem caclfrombuff_more {left value multiplier : Nat} {crc c : UInt8} {s' : Sock}
    (hgets : sockGets calls s 1 [] = some (some [c], s')) (hc : c &&& 128 ≠ 0) :
    caclfrombuff calls (left + 1) s value multiplier crc =
      caclfrombuff calls left s' (value + (c &&& 127).toNat * multiplier) (multiplier * 128) (crc + c) := by
  rw [caclfrombuff, hgets]
  exact if_pos hc

/-- `BindClient_caclfrombuff` reads what `BindClient_calc2buflen` wrote: the digits left are added with their
weight, the bytes to the checksum. -/
theorem caclfrombuff_complete {left n : Nat} (hleft : (calc2buflen n).length ≤ left) (hs : s.Sound)
    {rest : List UInt8} (hstream : s.stream = calc2buflen n ++ rest) (value multiplier : Nat) (crc : UInt8) :
    ∃ s', s'.stream = rest ∧ ∀ calls, s.arrivals.length ≤ calls →
      caclfrombuff calls left s value multiplier crc =
        some ⟨value + n * multiplier, (calc2buflen n).foldl (· + ·) crc, true, s'⟩ := by
  induction left generalizing s n value multiplier crc with
  | zero =>
    rw [calc2buflen] at hleft
    split at hleft
    · cases hleft
    · cases hleft
  | succ left ih =>
    have hmod : n % 128 < 128 := Nat.mod_lt n (by omega)
    rcases Nat.lt_or_ge n 128 with hn | hn
    · rw [calc2buflen_small hn] at hstream ⊢
      obtain ⟨s', -, hrest, -, hgets⟩ := sockGets_one hs hstream
      refine ⟨s', hrest, fun calls hcalls => ?_⟩
      rw [caclfrombuff_last (hgets calls hcalls) (digit_last _ hmod), digit_last_value _ hmod, Nat.mod_eq_of_lt hn]
      rfl
    · rw [calc2buflen_large hn] at hleft hstream ⊢
      obtain ⟨s₁, hs₁, hrest₁, hle, hgets⟩ := sockGets_one hs hstream
      obtain ⟨s', hrest, hcalc⟩ := ih (Nat.le_of_succ_le_succ hleft) hs₁ hrest₁ (value + n % 128 * multiplier)
        (multiplier * 128) (crc + (UInt8.ofNat (n % 128) ||| 0x80))
      refine ⟨s', hrest, fun calls hcalls => ?_⟩
      have hvalue : value + n % 128 * multiplier + n / 128 * (multiplier * 128) = value + n * multiplier := by
        have hdigits : n % 128 + 128 * (n / 128) = n := Nat.mod_add_div n 128
        calc value + n % 128 * multiplier + n / 128 * (multiplier * 128)
            = value + (n % 128 + 128 * (n / 128)) * multiplier := by
              rw [Nat.add_mul, Nat.mul_comm multiplier, ← Nat.mul_assoc, Nat.mul_comm (n / 128), Nat.add_assoc]
          _ = value + n * multiplier := by rw [hdigits]
      rw [caclfrombuff_more (hgets calls hcalls) (digit_more _ hmod), digit_more_value _ hmod,
        hcalc calls (Nat.le_trans hle hcalls), hvalue, List.foldl_cons]

/-- **A length comes through**: it has four bytes at most, and whatever is behind it and however it arrives, the
receiver reads it, takes just its bytes and adds these to the checksum. -/
theorem caclfrombuff_calc2buflen {n : Nat} (hn : n ≤ 268435455) {s : Sock} (hs : s.Sound) {rest : List UInt8}
    (hstream : s.stream = calc2buflen n ++ rest) (crc : UInt8) :
    (calc2buflen n).length ≤ 4 ∧ ∃ s', s'.stream = rest ∧ ∀ calls, s.arrivals.length ≤ calls →
      caclfrombuff calls 4 s 0 1 crc = some ⟨n, (calc2buflen n).foldl (· + ·) crc, true, s'⟩ := by
  have hlength : (calc2buflen n).length ≤ 4 := length_calc2buflen (by omega)
  obtain ⟨s', hrest, hcalc⟩ := caclfrombuff_complete hlength hs hstream 0 1 crc
  rw [Nat.zero_add, Nat.mul_one] at hcalc
  exact ⟨hlength, s', hrest, hcalc⟩

theorem calc2buflen_threeHundred : calc2buflen 300 = [172, 2] := by
  rw [calc2buflen_large (by omega), calc2buflen_small (by omega)]
  rfl

theorem caclfrombuff_threeHundred :
    (calc2buflen 300).length ≤ 4 ∧ ∃ s', s'.stream = [7] ∧ ∀ calls, 3 ≤ calls →
      caclfrombuff calls 4 ⟨[.bytes [172], .again, .bytes [2, 7]], false⟩ 0 1 1 =
        some ⟨300, (calc2buflen 300).foldl (· + ·) 1, true, s'⟩ := by
  have hsound : Sock.Sound ⟨[.bytes [172], .again, .bytes [2, 7]], false⟩ := by
    unfold Sock.Sound
    decide
  refine caclfrombuff_calc2buflen (by omega) hsound ?_ 1
  rw [calc2buflen_threeHundred]
  rfl

end ProgrammingPath.BindClient
