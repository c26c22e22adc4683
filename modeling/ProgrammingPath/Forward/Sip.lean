import Mathlib.Data.List.Forall2
import ProgrammingPath.Forward.Dispatcher
import ProgrammingPath.Forward.Message

/-!
# SIP messages through the forwarder

`forward_session_handle_sip` in `socket_forward.c` replaces the addresses of one side of a session by
those of the other: in the lines of the head (but not in an `Authorization` line), and in the body,
with filters of their own for the description of a media session. The length of the body may change
with that, so the `Content-Length` line is written anew, and once more when the body is done.
-/

namespace ProgrammingPath.Forward

open ProgrammingPath.Lib
open ProgrammingPath.Rtsp (scanInt decimal isDigit isSpace)

/-! ## Filters -/

/-- `inet_ntop`. -/
def ipText (ip : UInt32) : List UInt8 :=
  digitsText (ip.toNat / 16777216) ++ 46 :: (digitsText (ip.toNat / 65536 % 256) ++
    46 :: (digitsText (ip.toNat / 256 % 256) ++ 46 :: digitsText (ip.toNat % 256)))

/-- `"%s:%d"`. -/
def addrText (a : Addr) : List UInt8 := ipText a.ip ++ 58 :: digitsText a.port.toNat

theorem mem_ipText {ip : UInt32} {b : UInt8} (hb : b ∈ ipText ip) : 46 ≤ b ∧ b ≤ 58 := by
  have hdigit : ∀ {n : Nat}, b ∈ digitsText n → 46 ≤ b ∧ b ≤ 58 := by
    intro n hn
    obtain ⟨hlow, hhigh⟩ := digitsText_isDigit hn
    exact ⟨UInt8.le_trans (by decide) hlow, UInt8.le_trans hhigh (by decide)⟩
  simp only [ipText, List.mem_append, List.mem_cons] at hb
  rcases hb with hb | rfl | hb | rfl | hb | rfl | hb
  all_goals first | exact hdigit hb | decide

theorem mem_addrText {a : Addr} {b : UInt8} (hb : b ∈ addrText a) : 46 ≤ b ∧ b ≤ 58 := by
  simp only [addrText, List.mem_append, List.mem_cons] at hb
  rcases hb with hb | rfl | hb
  · exact mem_ipText hb
  · decide
  · obtain ⟨hlow, hhigh⟩ := digitsText_isDigit hb
    exact ⟨UInt8.le_trans (by decide) hlow, UInt8.le_trans hhigh (by decide)⟩

theorem nul_addrText (a : Addr) : 0 ∉ addrText a := fun h => absurd (mem_addrText h) (by decide)

theorem nul_ipText (ip : UInt32) : 0 ∉ ipText ip := fun h => absurd (mem_ipText h) (by decide)

/-- What the handler uses of the session and its two streams, `outBuff` being what is in the buffer of
`streamout`. -/
structure SipSession where
  /-- whether `streamin->stype` is not `SESSION_TYPE_NONE` -/
  registered : Bool
  inLocal : Addr
  inRemote : Addr
  outLocal : Addr
  outRemote : Addr
  /-- `_subfiter_sip_INVITE_content` -/
  inviteFilters : List SubFilter
  outBuff : List UInt8

/-- `sub_filter_head`. -/
def sipFilters (ss : SipSession) : List SubFilter :=
  [⟨addrText ss.inLocal, addrText ss.outRemote, nul_addrText _, nul_addrText _⟩,
    ⟨addrText ss.inRemote, addrText ss.outLocal, nul_addrText _, nul_addrText _⟩,
    ⟨addrText ss.inRemote, addrText ss.outLocal, nul_addrText _, nul_addrText _⟩,
    ⟨ipText ss.inRemote.ip, ipText ss.outLocal.ip, nul_ipText _, nul_ipText _⟩]

/-- `strcpy_ipv4`: up to sixteen digits and points, of which three are points. -/
def strcpyIpv4 : Nat → Nat → List UInt8 → List UInt8
  | 0, _, _ => []
  | _ + 1, _, [] => []
  | room + 1, points, b :: rest =>
    let points := if b = 46 then points + 1 else points
    if points ≤ 3 ∧ (isDigit b = true ∨ b = 46) then b :: strcpyIpv4 room points rest else []

theorem mem_strcpyIpv4 {room points : Nat} {l : List UInt8} {b : UInt8}
    (hb : b ∈ strcpyIpv4 room points l) : b ≠ 0 := by
  induction l generalizing room points with
  | nil =>
    cases room with
    | zero => cases hb
    | succ room => cases hb
  | cons a l ih =>
    cases room with
    | zero => cases hb
    | succ room =>
      rw [strcpyIpv4, List.mem_ite_nil_right] at hb
      obtain ⟨⟨-, hchar⟩, hb⟩ := hb
      rcases List.mem_cons.mp hb with rfl | hb
      · rintro rfl
        exact absurd hchar (by decide)
      · exact ih hb

def inIp4 : List UInt8 := text "IN IP4 "

theorem nul_inIp4 {l : List UInt8} (h : 0 ∉ l) : 0 ∉ inIp4 ++ l := by
  rw [List.mem_append, not_or]
  exact ⟨by decide +kernel, h⟩

/-- The filters for the body: those of the media server for an `INVITE`, and one more for the answer
to it. `mem` is the memory from the message on, `ptr` that from the body on. -/
def bodyFilters (ss : SipSession) (mem ptr : List UInt8) : List SubFilter :=
  if startsCI (text "INVITE") mem then ss.inviteFilters
  else if startsCI (text "SIP/2.0 200 OK") mem ∧ (indexOf (text "INVITE") (cstr mem)).isSome ∧
      (indexOf (text "application/sdp") (cstr mem)).isSome then
    match indexOf inIp4 (cstr ptr) with
    | some k => sipFilters ss ++ [⟨inIp4 ++ strcpyIpv4 16 0 (cstr (ptr.drop (k + 7))),
        inIp4 ++ ipText ss.outLocal.ip, nul_inIp4 fun h => mem_strcpyIpv4 h rfl, nul_inIp4 (nul_ipText _)⟩]
    | none => sipFilters ss
  else sipFilters ss

/-! ## The handler -/

def authorizationKey : List UInt8 := text "Authorization:"

/-- What becomes of the line at a pointer. -/
def lineOut (ss : SipSession) (contentLength : Int) (mem : List UInt8) (linelen : Nat) : List UInt8 :=
  if startsCI authorizationKey mem then mem.take linelen
  else if startsCI contentLengthKey mem then
    contentLengthKey ++ 32 :: (padded contentLength ++ [13, 10])
  else stringReplace (sipFilters ss) mem linelen

/-- The loop over the lines of the head: what it writes, and how many bytes it has gone through. -/
def headLoop (ss : SipSession) (contentLength : Int) : Nat → List UInt8 → Nat → List UInt8 × Nat
  | 0, _, _ => ([], 0)
  | fuel + 1, mem, left =>
    if left = 0 then ([], 0)
    else
      match newlineAt mem with
      | none => ([], 0)
      | some k =>
        let r := headLoop ss contentLength fuel (mem.drop (k + 1)) (left - (k + 1))
        (lineOut ss contentLength mem (k + 1) ++ r.1, k + 1 + r.2)

/-- The number behind the first `Content-Length:` is written again. `sprintf` puts a NUL behind it,
which the loop after it makes a `\r`. -/
def editContentLength (out : List UInt8) (n : Nat) : Option (List UInt8) :=
  (indexOf contentLengthKey (cstr out)).map fun edit =>
    let bk := (newlineAt (out.drop edit)).getD 0
    let printed := padded n ++ [0]
    let tail := printed ++ out.drop (edit + 16 + printed.length)
    out.take (edit + 16) ++ (tail.take (bk - 16)).map (fun b => if b = 0 then 13 else b) ++
      tail.drop (bk - 16)

/-- What is sent: an answer to `streamin`, or a message to `streamout`. -/
inductive SipSend
  | refuse (bytes : List UInt8)
  | forward (bytes : List UInt8)
  deriving DecidableEq, Repr

/-- A request other than `REGISTER` on a stream that has not registered. -/
def refused (ss : SipSession) (mem : List UInt8) : Bool :=
  !startsCI (text "SIP/2.0 ") mem && !startsCI (text "REGISTER") mem && !ss.registered

def unauthorized : List UInt8 := text "SIP/2.0 401 Unauthorized\r\nContent-Length:0\r\n\r\n"

/-- `forward_session_handle_sip`; `mem` is the buffer of `streamin` with its `pos` bytes and what is
behind them. Without a `Content-Length:` in what it has written it looks for one in older bytes of the
buffer, which is `none` here. -/
def handleSip (ss : SipSession) (mem : List UInt8) (pos : Nat) : Option SipSend :=
  if refused ss mem then some (.refuse unauthorized)
  else
    match heardGetlength (mem.take pos) with
    | none => some (.forward ss.outBuff)
    | some httplen =>
      let contentLength := headGetContentLength mem pos
      let (head, used) := headLoop ss contentLength httplen mem httplen
      if used < pos then
        let body := stringReplace (bodyFilters ss mem (mem.drop used)) (mem.drop used) (pos - used)
        if (body.length : Int) ≠ contentLength then
          (editContentLength (head ++ body) body.length).map .forward
        else some (.forward (head ++ body))
      else some (.forward head)

/-! ## The texts of addresses -/

/-- A text that starts with a digit. -/
def DigitFirst (l : List UInt8) : Prop := ∃ d rest, l = d :: rest ∧ 48 ≤ d ∧ d ≤ 57

theorem digitFirst_ipText (ip : UInt32) : DigitFirst (ipText ip) := by
  obtain ⟨d, ds, hds⟩ := List.exists_cons_of_ne_nil (digitsText_ne_nil (ip.toNat / 16777216))
  refine ⟨d, _, by rw [ipText, hds, List.cons_append], ?_⟩
  exact digitsText_isDigit (hds ▸ List.mem_cons_self)

theorem digitFirst_addrText (a : Addr) : DigitFirst (addrText a) := by
  obtain ⟨d, rest, heq, hd⟩ := digitFirst_ipText a.ip
  exact ⟨d, _, by rw [addrText, heq, List.cons_append], hd⟩

/-- Digits, points and colons, of which the first is a digit. -/
theorem sipFilters_text {ss : SipSession} {f : SubFilter} (hf : f ∈ sipFilters ss) :
    (∀ b ∈ f.str1, 46 ≤ b ∧ b ≤ 58) ∧ (∀ b ∈ f.str2, 46 ≤ b ∧ b ≤ 58) ∧ DigitFirst f.str2 := by
  simp only [sipFilters, List.mem_cons, List.not_mem_nil, or_false] at hf
  rcases hf with rfl | rfl | rfl | rfl
  · exact ⟨fun _ => mem_addrText, fun _ => mem_addrText, digitFirst_addrText _⟩
  · exact ⟨fun _ => mem_addrText, fun _ => mem_addrText, digitFirst_addrText _⟩
  · exact ⟨fun _ => mem_addrText, fun _ => mem_addrText, digitFirst_addrText _⟩
  · exact ⟨fun _ => mem_ipText, fun _ => mem_ipText, digitFirst_ipText _⟩

theorem sipFilters_ne_nil {ss : SipSession} {f : SubFilter} (hf : f ∈ sipFilters ss) : f.str2 ≠ [] := by
  obtain ⟨d, rest, heq, -⟩ := (sipFilters_text hf).2.2
  rw [heq]
  exact List.cons_ne_nil d rest

theorem sipFilters_head {ss : SipSession} {f : SubFilter} (hf : f ∈ sipFilters ss) {b : UInt8}
    (hb : ¬(48 ≤ b ∧ b ≤ 57)) : f.str2.head? ≠ some b := by
  obtain ⟨d, rest, heq, hd⟩ := (sipFilters_text hf).2.2
  rw [heq, List.head?_cons]
  intro h
  exact hb (Option.some.inj h ▸ hd)

theorem sipFilters_without (ss : SipSession) {stop : UInt8} (hstop : ¬(46 ≤ stop ∧ stop ≤ 58)) :
    Without stop (sipFilters ss) :=
  fun _ hf hmem => hstop ((sipFilters_text hf).1 stop hmem)

/-- A byte that is in no address is in a rewritten line only if it was there before. -/
theorem not_mem_replaced {ss : SipSession} {b : UInt8} (hb : ¬(46 ≤ b ∧ b ≤ 58)) {l : List UInt8}
    (hl : b ∉ l) : b ∉ replaced (sipFilters ss) l := by
  apply not_mem_stringReplace
  · exact fun f hf hmem => hb ((sipFilters_text hf).2.1 b hmem)
  · rwa [List.take_length]

/-! ## The loop over the head -/

/-- What becomes of a line of the head, without its newline. -/
def outLine (ss : SipSession) (contentLength : Int) (l : List UInt8) : List UInt8 :=
  if startsCI authorizationKey l then l
  else if startsCI contentLengthKey l then contentLengthKey ++ 32 :: (padded contentLength ++ [13])
  else replaced (sipFilters ss) l

theorem toLower_authorizationKey : ∀ b ∈ authorizationKey, toLower b ≠ 10 := by decide +kernel

theorem lineOut_line (ss : SipSession) (contentLength : Int) (l rest : List UInt8) :
    lineOut ss contentLength (l ++ 10 :: rest) (l.length + 1) = outLine ss contentLength l ++ [10] := by
  rw [lineOut, outLine, startsCI_line toLower_authorizationKey,
    startsCI_line toLower_contentLengthKey]
  split
  · rw [List.take_append, List.take_of_length_le (by omega), show l.length + 1 - l.length = 1 by omega]
    rfl
  · split
    · simp
    · exact stringReplace_line (sipFilters_without ss (by decide)) l rest

/-- All lines of the head are gone through. -/
theorem headLoop_lines (ss : SipSession) (contentLength : Int) {lines : List (List UInt8)}
    (hlines : ∀ l ∈ lines, IsLine l) {fuel : Nat} (hfuel : lines.length ≤ fuel) (rest : List UInt8) :
    headLoop ss contentLength fuel (unlines lines ++ rest) (unlines lines).length =
      (unlines (lines.map (outLine ss contentLength)), (unlines lines).length) := by
  induction lines generalizing fuel with
  | nil =>
    cases fuel with
    | zero => rfl
    | succ fuel => rw [unlines_nil, headLoop, List.length_nil, if_pos rfl, List.map_nil, unlines_nil]
  | cons l lines ih =>
    obtain ⟨fuel, rfl⟩ : ∃ f, fuel = f + 1 := ⟨fuel - 1, by rw [List.length_cons] at hfuel; omega⟩
    have hl := hlines l List.mem_cons_self
    have hdrop : (l ++ 10 :: (unlines lines ++ rest)).drop (l.length + 1) = unlines lines ++ rest := by
      rw [List.drop_append, List.drop_of_length_le (by omega),
        show l.length + 1 - l.length = 1 by omega]
      rfl
    rw [unlines_cons, length_unlines_cons, headLoop, if_neg (by omega), newlineAt_line hl.1 hl.2]
    simp only [hdrop, show l.length + 1 + (unlines lines).length - (l.length + 1) =
      (unlines lines).length by omega]
    rw [ih (fun l hl => hlines l (List.mem_cons_of_mem _ hl)) (Nat.le_of_succ_le_succ hfuel),
      lineOut_line, List.map_cons]
    rfl

/-! ## The `Content-Length` line again -/

/-- An occurrence of a text without newlines lies in one line. -/
theorem exists_line_of_prefix {w : List UInt8} (hw : 10 ∉ w) {lines : List (List UInt8)}
    {rest : List UInt8} {k : Nat} (hk : k < (unlines lines).length)
    (h : w <+: (unlines lines ++ rest).drop k) : ∃ l ∈ lines, ∃ j, w <+: l.drop j := by
  induction lines generalizing k with
  | nil => exact absurd hk (Nat.not_lt_zero k)
  | cons l lines ih =>
    rw [unlines_cons] at h
    by_cases hl : k ≤ l.length
    · rw [List.drop_append_of_le_length hl] at h
      exact ⟨l, List.mem_cons_self, k, (Replaced.prefix_append_cons_iff hw).mp h⟩
    · rw [length_unlines_cons] at hk
      rw [List.drop_append, List.drop_of_length_le (by omega), List.nil_append,
        show k - l.length = k - l.length - 1 + 1 by omega, List.drop_succ_cons] at h
      obtain ⟨l', hl', hj⟩ := ih (by omega) h
      exact ⟨l', List.mem_cons_of_mem _ hl', hj⟩

/-- And what is in a line is in the text before the line behind it. -/
theorem exists_prefix_of_line {w : List UInt8} (hne : w ≠ []) {lines : List (List UInt8)}
    {l : List UInt8} (hl : l ∈ lines) {j : Nat} (h : w <+: l.drop j) (rest : List UInt8) :
    ∃ k < (unlines lines).length, w <+: (unlines lines ++ rest).drop k := by
  have hj : j < l.length := by
    apply Nat.lt_of_not_le
    intro hle
    rw [List.drop_of_length_le hle] at h
    exact hne (List.prefix_nil.mp h)
  induction lines with
  | nil => cases hl
  | cons l' lines ih =>
    rw [unlines_cons, length_unlines_cons]
    rcases List.mem_cons.mp hl with rfl | hl
    · refine ⟨j, by omega, ?_⟩
      rw [List.drop_append_of_le_length (Nat.le_of_lt hj)]
      exact h.trans (List.prefix_append _ _)
    · obtain ⟨k, hk, hpre⟩ := ih hl
      refine ⟨l'.length + 1 + k, by omega, ?_⟩
      rw [List.drop_append, List.drop_of_length_le (by omega), List.nil_append,
        show l'.length + 1 + k - l'.length = k + 1 by omega, List.drop_succ_cons]
      exact hpre

theorem contentLengthKey_eq : contentLengthKey = 67 :: text "ontent-Length:" := by decide +kernel

/-- A key in a rewritten line was in the line before it was rewritten. -/
theorem contentLengthKey_of_outLine {ss : SipSession} {contentLength : Int} {l : List UInt8} {j : Nat}
    (h : contentLengthKey <+: (outLine ss contentLength l).drop j) :
    ∃ k, startsCI contentLengthKey (l.drop k) = true := by
  have hkey : ∀ {m : List UInt8}, contentLengthKey <+: m → startsCI contentLengthKey m = true := by
    rintro m ⟨more, rfl⟩
    exact startsCI_append (by decide +kernel) more
  rw [outLine] at h
  split at h
  · exact ⟨j, hkey h⟩
  · split at h
    · next hl => exact ⟨0, hl⟩
    · have hw : ∀ f ∈ sipFilters ss, ∀ b ∈ contentLengthKey, f.str2.head? ≠ some b := by
        intro f hf b hb
        have hnodigit : ∀ b ∈ contentLengthKey, ¬(48 ≤ b ∧ b ≤ 57) := by decide +kernel
        exact sipFilters_head hf (hnodigit b hb)
      have hC : ∀ f ∈ sipFilters ss, (67 : UInt8) ∉ f.str2 :=
        fun f hf hmem => absurd ((sipFilters_text hf).2.1 67 hmem) (by decide)
      rw [contentLengthKey_eq] at h hw
      obtain ⟨k, hk⟩ := drop_prefix_of_stringReplace (fun f hf => sipFilters_ne_nil hf) hw hC h
      rw [List.take_length] at hk
      exact ⟨k, hkey (contentLengthKey_eq ▸ hk)⟩

theorem mem_padded {v : Int} {b : UInt8} (hb : b ∈ padded v) : b ≠ 0 ∧ b ≠ 10 := by
  have hdigits : ∀ {n : Nat}, b ∈ digitsText n → b ≠ 0 ∧ b ≠ 10 := by
    intro n hn
    have h48 := (digitsText_isDigit hn).1
    constructor
    · rintro rfl
      exact absurd h48 (by decide)
    · rintro rfl
      exact absurd h48 (by decide)
  rw [padded] at hb
  rcases List.mem_append.mp hb with hb | hb
  · rw [List.eq_of_mem_replicate hb]
    decide
  · split at hb
    · rcases List.mem_cons.mp hb with rfl | hb
      · decide
      · exact hdigits hb
    · exact hdigits hb

/-- The second pass writes a `\r` over a NUL, and nothing over another byte. -/
theorem map_nul_eq_self {l : List UInt8} (h : ∀ b ∈ l, b ≠ 0) : l.map (fun b => if b = 0 then 13 else b) = l := by
  conv => rhs; rw [← List.map_id l]
  apply List.map_congr_left
  intro b hb
  rw [if_neg (h b hb), id]

/-- The line as it is written at first, and what the second pass makes of it: the NUL behind the new
number becomes a `\r`, and digits of a longer number stay behind it. -/
theorem editContentLength_line {pre after : List UInt8} {contentLength : Int} {n : Nat} (hn : n < 100000)
    (hnul : 0 ∉ pre)
    (hpre : ∀ rest, ∀ k < pre.length, ¬contentLengthKey <+: (pre ++ rest).drop k) :
    editContentLength
        (pre ++ ((contentLengthKey ++ 32 :: (padded contentLength ++ [13])) ++ 10 :: after)) n =
      some (pre ++ ((contentLengthKey ++ 32 :: (padded n ++ 13 :: (padded contentLength ++ [13]).drop 6)) ++
        10 :: after)) := by
  generalize hP : padded contentLength ++ [13] = P
  have hPlen : 6 ≤ P.length := by
    rw [← hP, List.length_append, List.length_singleton]
    exact Nat.succ_le_succ (five_le_length_padded contentLength)
  have hPmem : ∀ b ∈ P, b ≠ 0 ∧ b ≠ 10 := by
    intro b hb
    rw [← hP] at hb
    rcases List.mem_append.mp hb with hb | hb
    · exact mem_padded hb
    · rw [List.mem_singleton.mp hb]
      decide
  have hlen := length_padded hn
  have hK : (contentLengthKey ++ [32]).length = 16 := by decide +kernel
  generalize hKK : contentLengthKey ++ [32] = K at hK
  have hcons : ∀ rest : List UInt8, contentLengthKey ++ 32 :: rest = K ++ rest := by
    intro rest
    rw [← hKK, List.append_assoc]
    rfl
  have hindex : indexOf contentLengthKey (cstr (pre ++ (K ++ P ++ 10 :: after))) = some pre.length := by
    rw [cstr_append hnul]
    apply indexOf_append (hpre _)
    rw [← hKK, List.append_assoc, List.append_assoc, cstr_append (by decide +kernel)]
    exact List.prefix_append _ _
  have hplain : ∀ b ∈ K ++ P, b ≠ 0 ∧ b ≠ 10 := by
    intro b hb
    rcases List.mem_append.mp hb with hb | hb
    · have hkey : ∀ b ∈ contentLengthKey ++ [32], b ≠ 0 ∧ b ≠ 10 := by decide +kernel
      exact hkey b (hKK ▸ hb)
    · exact hPmem b hb
  have hnewline : newlineAt (K ++ P ++ 10 :: after) = some (16 + P.length) := by
    rw [newlineAt_line (fun h => (hplain _ h).2 rfl) (fun h => (hplain _ h).1 rfl), List.length_append, hK]
  have hdrop : (pre ++ (K ++ P ++ 10 :: after)).drop (pre.length + 16 + 6) = P.drop 6 ++ 10 :: after := by
    rw [Nat.add_assoc, List.drop_append, List.drop_of_length_le (by omega), List.nil_append,
      List.append_assoc, List.drop_append, List.drop_of_length_le (by omega), List.nil_append,
      show pre.length + (16 + 6) - pre.length - K.length = 6 by omega,
      List.drop_append_of_le_length hPlen]
  have htake : (pre ++ (K ++ P ++ 10 :: after)).take (pre.length + 16) = pre ++ K := by
    rw [← List.append_assoc, ← List.append_assoc, List.append_assoc (pre ++ K), ← hK,
      ← List.length_append, List.take_left]
  have hmap : (padded n ++ 0 :: P.drop 6).map (fun b => if b = 0 then 13 else b) =
      padded n ++ 13 :: P.drop 6 := by
    rw [List.map_append, List.map_cons, if_pos rfl, map_nul_eq_self fun b hb => (mem_padded hb).1,
      map_nul_eq_self fun b hb => (hPmem b (List.mem_of_mem_drop hb)).1]
  have htail : padded n ++ [0] ++ (P.drop 6 ++ 10 :: after) =
      (padded n ++ 0 :: P.drop 6) ++ 10 :: after := by simp
  have htailLen : (padded n ++ 0 :: P.drop 6).length = P.length := by
    rw [List.length_append, List.length_cons, List.length_drop, hlen]
    omega
  rw [hcons, hcons, editContentLength, hindex, Option.map_some]
  simp only [List.drop_left, hnewline, Option.getD_some, List.length_append, hlen,
    List.length_singleton, Nat.reduceAdd, hdrop, htake, Nat.add_sub_cancel_left, htail]
  rw [← htailLen, List.take_left, List.drop_left, hmap]
  simp only [List.append_assoc]

/-! ## Messages -/

/-- A SIP message, in whose head the key is only once. -/
structure SipMessage extends Message where
  nowhere : ∀ k, startsCI contentLengthKey (toMessageText.head.drop k) = true →
    k = (unlines toMessageText.before).length

/-- What the forwarded line `l'` has to do with the line `l`; `n` is the length of the forwarded
body. -/
structure LineKept (ss : SipSession) (n : Nat) (l l' : List UInt8) : Prop where
  line : 10 ∉ l'
  authorization : startsCI authorizationKey l = true → l' = l
  same : startsCI contentLengthKey l' = startsCI contentLengthKey l
  length : startsCI contentLengthKey l' = true → scanInt (l'.drop contentLengthKey.length) = some (n : Int)
  other : startsCI authorizationKey l = false → startsCI contentLengthKey l = false →
    l' = replaced (sipFilters ss) l

/-- A rewritten line does not begin with the key unless the line did. -/
theorem startsCI_replaced (ss : SipSession) {l : List UInt8}
    (h : startsCI contentLengthKey (replaced (sipFilters ss) l) = true) :
    startsCI contentLengthKey l = true := by
  have htake := startsCI_iff.mp h
  have hw : ∀ f ∈ sipFilters ss,
      ∀ b ∈ (replaced (sipFilters ss) l).take contentLengthKey.length, f.str2.head? ≠ some b := by
    intro f hf b hb
    apply sipFilters_head hf
    intro hdigit
    have hmem : toLower b ∈ contentLengthKey.map toLower := htake ▸ List.mem_map_of_mem hb
    have hnodigit : ∀ b ∈ contentLengthKey.map toLower, ¬(48 ≤ b ∧ b ≤ 57) := by decide +kernel
    have hlower : toLower b = b := by
      rw [toLower, if_neg]
      intro hupper
      exact absurd (UInt8.le_trans hupper.1 hdigit.2) (by decide)
    exact hnodigit _ hmem (hlower.symm ▸ hdigit)
  have hpre := prefix_of_stringReplace (fun f hf => sipFilters_ne_nil hf) hw (List.take_prefix _ _)
  have hle := startsCI_length_le h
  rw [List.take_length] at hpre
  rw [startsCI_iff, ← htake, List.prefix_iff_eq_take.mp hpre, List.length_take_of_le hle]

/-- The two keys differ in their first byte. -/
theorem not_authorization_of_contentLength {l : List UInt8} (h : startsCI contentLengthKey l = true) :
    startsCI authorizationKey l = false := by
  rw [Bool.eq_false_iff]
  intro hauth
  cases l with
  | nil => exact absurd h (by decide +kernel)
  | cons b l =>
    have h1 := congrArg List.head? (startsCI_iff.mp h)
    have h2 := congrArg List.head? (startsCI_iff.mp hauth)
    rw [show contentLengthKey.length = 14 + 1 by decide +kernel, List.take_succ_cons, List.map_cons,
      List.head?_cons] at h1
    rw [show authorizationKey.length = 13 + 1 by decide +kernel, List.take_succ_cons, List.map_cons,
      List.head?_cons] at h2
    exact absurd (h1.symm.trans h2) (by decide +kernel)

/-- A line other than that of the length. -/
theorem lineKept_outLine (ss : SipSession) (n : Nat) (contentLength : Int) {l : List UInt8} (hl : 10 ∉ l)
    (hkey : startsCI contentLengthKey l = false) : LineKept ss n l (outLine ss contentLength l) := by
  have hout : outLine ss contentLength l =
      if startsCI authorizationKey l then l else replaced (sipFilters ss) l := by
    rw [outLine, hkey]
    rfl
  have hnot : startsCI contentLengthKey (outLine ss contentLength l) = false := by
    rw [hout]
    split
    · exact hkey
    · rw [Bool.eq_false_iff]
      intro h
      rw [startsCI_replaced ss h] at hkey
      cases hkey
  refine ⟨?_, ?_, hnot.trans hkey.symm, ?_, ?_⟩
  · rw [hout]
    split
    · exact hl
    · exact not_mem_replaced (by decide) hl
  · intro hauth
    rw [hout, if_pos hauth]
  · intro h
    rw [hnot] at h
    cases h
  · intro hauth _
    rw [hout, hauth]
    rfl

/-- That of the length, with the number of bytes of the forwarded body. -/
theorem lineKept_length (ss : SipSession) (n : Nat) {l rest : List UInt8}
    (hkey : startsCI contentLengthKey l = true) (hrest : 10 ∉ rest) :
    LineKept ss n l (contentLengthKey ++ 32 :: (padded n ++ 13 :: rest)) := by
  refine ⟨?_, ?_, ?_, ?_, ?_⟩
  · simp only [List.mem_append, List.mem_cons, not_or]
    exact ⟨by decide +kernel, by decide, fun h => (mem_padded h).2 rfl, by decide, hrest⟩
  · intro hauth
    rw [not_authorization_of_contentLength hkey] at hauth
    cases hauth
  · rw [hkey]
    exact startsCI_append (by decide +kernel) _
  · intro _
    rw [List.drop_left]
    apply scanInt_padded
    rintro b ⟨⟩
    rfl
  · intro _ h
    rw [hkey] at h
    cases h

namespace SipMessage

variable (m : SipMessage)

/-- No line before that of the length has the key in it. -/
theorem not_startsCI_drop {l : List UInt8} (hl : l ∈ m.before) (j : Nat) :
    startsCI contentLengthKey (l.drop j) = false := by
  rw [Bool.eq_false_iff]
  intro h
  have hne : l.drop j ≠ [] := by
    intro hnil
    rw [hnil] at h
    exact absurd h (by decide +kernel)
  obtain ⟨k, hk, more, hmore⟩ := exists_prefix_of_line hne hl (List.prefix_refl _)
    (m.key ++ m.value ++ 10 :: unlines m.after)
  have honly := m.nowhere k (by rw [m.head_eq, ← hmore]; exact startsCI_append h more)
  omega

/-- What `string_replace` makes of the body, with the filters for this kind of message. `behind` is
what the memory has behind the message. -/
def bodyOut (ss : SipSession) (behind : List UInt8) : List UInt8 :=
  stringReplace (bodyFilters ss (m.bytes ++ behind) (m.body ++ behind)) (m.body ++ behind) m.body.length

/-- The lines before that of the length, as they are forwarded. -/
def beforeOut (ss : SipSession) (contentLength : Int) : List (List UInt8) :=
  m.before.map (outLine ss contentLength)

def afterOut (ss : SipSession) (contentLength : Int) : List (List UInt8) :=
  m.after.map (outLine ss contentLength)

theorem outLine_lengthLine (ss : SipSession) (contentLength : Int) :
    outLine ss contentLength (m.key ++ m.value) =
      contentLengthKey ++ 32 :: (padded contentLength ++ [13]) := by
  rw [outLine, not_authorization_of_contentLength m.startsCI_key, m.startsCI_key]
  rfl

theorem map_outLine (ss : SipSession) (contentLength : Int) :
    m.lines.map (outLine ss contentLength) =
      m.beforeOut ss contentLength ++
        (contentLengthKey ++ 32 :: (padded contentLength ++ [13])) :: m.afterOut ss contentLength := by
  rw [MessageText.lines, List.map_append, List.map_cons, outLine_lengthLine]
  rfl

theorem not_mem_outLine {ss : SipSession} {contentLength : Int} {l : List UInt8} (hl : 0 ∉ l)
    (hkey : startsCI contentLengthKey l = false) : 0 ∉ outLine ss contentLength l := by
  rw [outLine, hkey]
  split
  · exact hl
  · exact not_mem_replaced (by decide) hl

/-- No NUL and no key comes before the line of the length. -/
theorem beforeOut_text (ss : SipSession) (contentLength : Int) :
    0 ∉ unlines (m.beforeOut ss contentLength) ∧
      ∀ rest, ∀ k < (unlines (m.beforeOut ss contentLength)).length,
        ¬contentLengthKey <+: (unlines (m.beforeOut ss contentLength) ++ rest).drop k := by
  constructor
  · intro hmem
    obtain ⟨l', hl', hnul⟩ := List.mem_flatMap.mp hmem
    obtain ⟨l, hl, rfl⟩ := List.mem_map.mp hl'
    rcases List.mem_append.mp hnul with hnul | hnul
    · exact not_mem_outLine (m.isLine_before hl).2 (m.not_startsCI_before hl) hnul
    · exact absurd hnul (by decide)
  · intro rest k hk hpre
    obtain ⟨l', hl', j, hj⟩ := exists_line_of_prefix (by decide +kernel) hk hpre
    obtain ⟨l, hl, rfl⟩ := List.mem_map.mp hl'
    obtain ⟨i, hi⟩ := contentLengthKey_of_outLine hj
    rw [m.not_startsCI_drop hl i] at hi
    cases hi

/-- Each line is kept, whatever is behind the number in that of the length. -/
theorem forall₂_lineKept (ss : SipSession) (n : Nat) (contentLength : Int) {rest : List UInt8}
    (hrest : 10 ∉ rest) :
    List.Forall₂ (LineKept ss n) m.lines
      (m.beforeOut ss contentLength ++
        (contentLengthKey ++ 32 :: (padded n ++ 13 :: rest)) :: m.afterOut ss contentLength) := by
  have hmap : ∀ ls : List (List UInt8), (∀ l ∈ ls, 10 ∉ l ∧ startsCI contentLengthKey l = false) →
      List.Forall₂ (LineKept ss n) ls (ls.map (outLine ss contentLength)) := by
    intro ls hls
    rw [List.forall₂_map_right_iff, List.forall₂_same]
    exact fun l hl => lineKept_outLine ss n contentLength (hls l hl).1 (hls l hl).2
  rw [MessageText.lines]
  apply List.rel_append
  · exact hmap m.before fun l hl => ⟨(m.isLine_before hl).1, m.not_startsCI_before hl⟩
  · apply List.Forall₂.cons (lineKept_length ss n m.startsCI_key hrest)
    exact hmap m.after fun l hl => ⟨(m.isLine_after hl).1, m.not_startsCI_after hl⟩

/-- The second pass over the length, in the message. -/
theorem editContentLength_lines (ss : SipSession) (contentLength : Int) (body : List UInt8) {n : Nat}
    (hn : n < 100000) :
    editContentLength (unlines (m.lines.map (outLine ss contentLength)) ++ body) n =
      some (unlines (m.beforeOut ss contentLength ++
        (contentLengthKey ++ 32 :: (padded n ++ 13 :: (padded contentLength ++ [13]).drop 6)) ::
          m.afterOut ss contentLength) ++ body) := by
  obtain ⟨hnul, hkey⟩ := m.beforeOut_text ss contentLength
  rw [map_outLine, unlines_middle, unlines_middle, List.append_assoc, List.append_assoc,
    List.cons_append, editContentLength_line hn hnul hkey]
  simp only [List.append_assoc, List.cons_append]

end SipMessage

/-- A head with nothing behind it is forwarded with the length as it was. -/
theorem handleSip_head (ss : SipSession) (m : Message) (behind : List UInt8)
    (hregistered : refused ss (m.head ++ behind) = false) :
    handleSip ss (m.head ++ behind) m.head.length =
      some (.forward (unlines (m.lines.map
        (outLine ss (headGetContentLength (m.head ++ behind) m.head.length))))) := by
  have hhead : heardGetlength ((m.head ++ behind).take m.head.length) = some m.head.length := by
    rw [List.take_left, ← m.heardGetlength_part (List.nil_prefix), List.append_nil]
  unfold handleSip
  rw [hregistered]
  simp only [hhead, Bool.false_eq_true, if_false]
  rw [MessageText.head, headLoop_lines ss _ m.line (length_le_unlines m.lines)]
  simp only [Nat.lt_irrefl, if_false]

/-- A registration whose body names the address of its sender. -/
def registrationText : MessageText where
  before := [text "REGISTER sip:a SIP/2.0\r"]
  key := text "content-length:"
  value := text " 8\r"
  after := [text "\r"]
  body := text "10.0.0.2"

def registration : SipMessage where
  toMessageText := registrationText
  line := by unfold IsLine; decide +kernel
  complete := by decide +kernel
  key_eq := by decide +kernel
  value_eq := by decide +kernel
  only := by decide +kernel
  nowhere := by
    intro k h
    have hall : ∀ k < 46, startsCI contentLengthKey (registrationText.head.drop k) = true →
        k = (unlines registrationText.before).length := by decide +kernel
    have hhead : registrationText.head.length ≤ 46 := by decide +kernel
    apply hall k _ h
    apply Nat.lt_of_not_le
    intro hk
    rw [List.drop_of_length_le (Nat.le_trans hhead hk)] at h
    exact absurd h (by decide +kernel)

def natSession : SipSession where
  registered := false
  inLocal := ⟨3232235521, 5060⟩
  inRemote := ⟨167772162, 5060⟩
  outLocal := ⟨3232235777, 5060⟩
  outRemote := ⟨3232235778, 5060⟩
  inviteFilters := []
  outBuff := []

end ProgrammingPath.Forward
