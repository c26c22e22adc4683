import Mathlib.Data.List.Induction
import ProgrammingPath.Lib.CString
import ProgrammingPath.Lib.Sends

/-!
# The head of a message in the proxy

`test_proxy.c` takes the head of a request or of a response out of its buffer, line by line where something in it may
have to be rewritten, and gives each piece to `sockstream_send`. The socket does not block, and nobody looks at what
`sockstream_send` returns: `relayed_iff` says when all of the head arrives.
-/

namespace ProgrammingPath.Proxy

open ProgrammingPath.Lib

/-! ## Heads and lines -/

/-- `http_heard_getlength`. -/
def headLengthLoop : Nat → List UInt8 → Option Nat
  | _, [] => none
  | pos, b :: rest =>
    if [10, 10] <+: b :: rest then some (pos + 2)
    else if [10, 13, 10] <+: b :: rest then some (pos + 3)
    else if [13, 10, 10] <+: b :: rest then some (pos + 3)
    else if [13, 10, 13, 10] <+: b :: rest then some (pos + 4)
    else headLengthLoop (pos + 1) rest

def httpHeardGetlength (mem : List UInt8) : Option Nat := headLengthLoop 0 mem

/-- `ex_strndup`: what is behind a NUL is not copied. -/
def strndup (mem : List UInt8) (n : Nat) : List UInt8 :=
  let copied := cstr (mem.take n)
  copied ++ List.replicate (n - copied.length) 0

/-- The length of the first line, or of as much of it as a buffer of this size holds. -/
def pieceLength (linesize : Nat) (mem : List UInt8) : Nat := min (lineLength mem) (linesize - 1)

/-- `string_getline`. -/
def stringGetline (mem : List UInt8) (linesize : Nat) : Option (List UInt8) :=
  if 10 ∈ cstr mem then some (mem.take (pieceLength linesize mem)) else none

/-! ## Rewriting -/

/-- An address as `inet_ntop` and `ntohs` give it. -/
structure Address where
  ip : List UInt8
  port : Nat
  ip_ne : ip ≠ []
  ip_plain : 10 ∉ ip
  ip_length : ip.length ≤ 15
  port_lt : port < 65536

/-- `"%s:%d"`, which `str1` and `str2` have room for. -/
def Address.withPort (a : Address) : List UInt8 := a.ip ++ 58 :: digitsText a.port

/-- The loop of `str_replace`; every turn takes at least one byte. -/
def strReplaceLoop (old new : List UInt8) : Nat → List UInt8 → List UInt8
  | 0, _ => []
  | _, [] => []
  | fuel + 1, b :: rest =>
    if old <+: b :: rest then new ++ strReplaceLoop old new fuel ((b :: rest).drop old.length)
    else b :: strReplaceLoop old new fuel rest

/-- `str_replace`. -/
def strReplace (str old new : List UInt8) : List UInt8 := strReplaceLoop old new str.length str

/-- `string_replace_ipinfo`: with the port if that occurs, else without. -/
def stringReplaceIpinfo (buff : List UInt8) (old new : Address) : Option (List UInt8) :=
  let strs :=
    if (indexOf old.withPort buff).isSome then (old.withPort, new.withPort) else (old.ip, new.ip)
  if (indexOf strs.1 buff).isSome then some (strReplace buff strs.1 strs.2) else none

/-- A line of a request as it is sent. -/
def requestLine (inLocal outRemote : Address) (line : List UInt8) : List UInt8 :=
  (stringReplaceIpinfo line inLocal outRemote).getD line

/-- A line of an ONVIF response as it is sent: `xmllength` is an `int`. -/
def onvifLine (xmllength : Fin 2147483648) (line : List UInt8) : List UInt8 :=
  if startsCI (text "Content-Length:") line then text "Content-Length: " ++ digitsText xmllength ++ [13, 10]
  else line

/-! ## The relays -/

/-- The loop over the lines from `pos` to `stop`; `line` is what `cacheline` holds. Where there is no line,
`string_getline` returns -1: the pointer goes back, and the old line is sent again. `none` when a line overflows
`cacheline`, when the pointer leaves the buffer, or without fuel. -/
def lineLoop (sock : Nat → Answer) (linesize : Nat) (rewrite : List UInt8 → List UInt8) (mem : List UInt8) (stop : Nat) :
    Nat → Nat → List UInt8 → Sink UInt8 → Option (Sink UInt8)
  | 0, _, _, _ => none
  | fuel + 1, pos, line, out =>
    if stop ≤ pos then some out
    else
      match stringGetline (mem.drop pos) linesize with
      | some got =>
        if linesize ≤ (rewrite got).length then none
        else
          lineLoop sock linesize rewrite mem stop fuel (pos + got.length) (rewrite got) (out.send sock (rewrite got))
      | none =>
        -- `pos += -1`
        if pos = 0 ∨ linesize ≤ (rewrite line).length then none
        else lineLoop sock linesize rewrite mem stop fuel (pos - 1) (rewrite line) (out.send sock (rewrite line))

/-- `_loop_http_head_request_in_out`: its `end` is the last byte of the head. -/
def loopHttpHeadRequestInOut (sock : Nat → Answer) (inLocal outRemote : Address) (fuel : Nat) (mem : List UInt8)
    (out : Sink UInt8) : Option (Sink UInt8) :=
  match httpHeardGetlength mem with
  | none => some out
  | some n => lineLoop sock 1024 (requestLine inLocal outRemote) mem (n - 1) fuel 0 [] out

/-- How a response is relayed: by `_loop_http_response_onvif`, with a body that was rewritten or without
`Content-Length`, by `_loop_http_response_nvr`, or line by line. -/
inductive Reply
  | onvif (xmllength : Fin 2147483648)
  | onvifEmpty
  | nvr
  | other

/-- The branches of `_loop_http_head_response_in_out`; the request was for these paths. -/
def replyOf (pathIsOnvif pathIsCgiBinMainCgi : Bool) (contentLength : Int) (xmllength : Fin 2147483648) : Reply :=
  if pathIsOnvif then if contentLength > 0 then .onvif xmllength else .onvifEmpty
  else if pathIsCgiBinMainCgi then .nvr
  else .other

/-- `_loop_http_head_response_in_out`. -/
def loopHttpHeadResponseInOut (sock : Nat → Answer) (reply : Reply) (fuel : Nat) (mem : List UInt8)
    (out : Sink UInt8) : Option (Sink UInt8) :=
  match httpHeardGetlength mem with
  | none => some out
  | some n =>
    match reply with
    | .onvif xmllength => lineLoop sock 2024 (onvifLine xmllength) (strndup mem n) n fuel 0 [] out
    | .onvifEmpty => some (out.send sock (strndup mem n))
    | .nvr => some (out.send sock (cstr (strndup mem n)))
    | .other => lineLoop sock 1024 id mem n fuel 0 [] out

/-- The loop of `thread_run` that sends what is behind the head; it goes on with what the socket did not take, and
gives up when `send` returns 0. -/
def bodyLoop (sock : Nat → Answer) : Nat → List UInt8 → Sink UInt8 → Option (Sink UInt8)
  | _, [], out => some out
  | 0, _, _ => none
  | fuel + 1, data, out =>
    match sock out.calls with
    | .took 0 => none
    | _ => bodyLoop sock fuel (data.drop ((sock out.calls).taken data.length)) (out.send sock data)

/-- Behind the head, nothing is lost. -/
theorem bodyLoop_delivers {sock : Nat → Answer} {fuel : Nat} {data : List UInt8} {out out' : Sink UInt8}
    (h : bodyLoop sock fuel data out = some out') : out'.delivered = out.delivered ++ data := by
  induction fuel generalizing data out with
  | zero =>
    cases data with
    | nil =>
      cases h
      exact (List.append_nil _).symm
    | cons b data => cases h
  | succ fuel ih =>
    cases data with
    | nil =>
      cases h
      exact (List.append_nil _).symm
    | cons b data =>
      simp only [bodyLoop] at h
      split at h
      · cases h
      · rw [ih h, Sink.send, List.append_assoc, List.take_append_drop]

/-! ## The pieces of a head -/

/-- What `string_getline` makes of `mem`, up to the last `k` bytes. -/
def piecesLoop (linesize k : Nat) : Nat → List UInt8 → List (List UInt8)
  | 0, _ => []
  | fuel + 1, mem =>
    if mem.length ≤ k then []
    else mem.take (pieceLength linesize mem) :: piecesLoop linesize k fuel (mem.drop (pieceLength linesize mem))

def pieces (linesize k : Nat) (mem : List UInt8) : List (List UInt8) := piecesLoop linesize k mem.length mem

section Pieces

variable {linesize k : Nat}

theorem pieceLength_le (linesize : Nat) (mem : List UInt8) : pieceLength linesize mem ≤ mem.length :=
  Nat.le_trans (Nat.min_le_left _ _) (lineLength_le mem)

theorem pieceLength_pos (hsize : 1 < linesize) {mem : List UInt8} (h : mem ≠ []) : 0 < pieceLength linesize mem :=
  Nat.lt_min.mpr ⟨lineLength_pos h, by omega⟩

theorem pieceLength_append {mem : List UInt8} (h : 10 ∈ mem) (rest : List UInt8) :
    pieceLength linesize (mem ++ rest) = pieceLength linesize mem := by
  rw [pieceLength, lineLength_append h, pieceLength]

/-- More turns than there are bytes change nothing. -/
theorem piecesLoop_fuel (hsize : 1 < linesize) {fuel fuel' : Nat} {mem : List UInt8} (h : mem.length ≤ fuel)
    (h' : mem.length ≤ fuel') : piecesLoop linesize k fuel mem = piecesLoop linesize k fuel' mem := by
  induction fuel generalizing fuel' mem with
  | zero =>
    rw [List.length_eq_zero_iff.mp (Nat.le_zero.mp h)]
    cases fuel' with
    | zero => rfl
    | succ fuel' => exact (if_pos (Nat.zero_le k)).symm
  | succ fuel ih =>
    cases fuel' with
    | zero =>
      rw [List.length_eq_zero_iff.mp (Nat.le_zero.mp h')]
      exact if_pos (Nat.zero_le k)
    | succ fuel' =>
      rw [piecesLoop, piecesLoop]
      split
      · rfl
      · next hmore =>
        have hne : mem ≠ [] := by
          rintro rfl
          exact hmore (Nat.zero_le k)
        have hpos := pieceLength_pos hsize hne
        congr 1
        apply ih <;>
        · rw [List.length_drop]
          omega

theorem pieces_of_le {mem : List UInt8} (h : mem.length ≤ k) : pieces linesize k mem = [] := by
  cases mem with
  | nil => rfl
  | cons b mem => rw [pieces, List.length_cons, piecesLoop, if_pos h]

theorem pieces_of_lt (hsize : 1 < linesize) {mem : List UInt8} (h : k < mem.length) :
    pieces linesize k mem = mem.take (pieceLength linesize mem) ::
      pieces linesize k (mem.drop (pieceLength linesize mem)) := by
  have hne : mem ≠ [] := by
    rintro rfl
    exact Nat.not_lt_zero k h
  have hpos := pieceLength_pos hsize hne
  obtain ⟨b, rest, rfl⟩ := List.exists_cons_of_ne_nil hne
  rw [pieces, List.length_cons, piecesLoop, if_neg (Nat.not_le.mpr h), pieces]
  congr 1
  apply piecesLoop_fuel hsize
  · rw [List.length_drop, List.length_cons]
    omega
  · exact Nat.le_refl _

/-- Without its last byte a head has the same pieces, unless that byte is all of the blank line. -/
theorem pieces_blank (hsize : 2 < linesize) {blank : List UInt8} (hblank : blank = [10] ∨ blank = [13, 10])
    (x : List UInt8) :
    pieces linesize 0 (x ++ 10 :: blank) =
      pieces linesize 1 (x ++ 10 :: blank) ++ if blank = [10] then [[10]] else [] := by
  have hsize' : 1 < linesize := Nat.lt_of_succ_lt hsize
  have hlast : pieces linesize 0 blank = pieces linesize 1 blank ++ if blank = [10] then [[10]] else [] := by
    rcases hblank with rfl | rfl
    · have hone : pieceLength linesize [10] = 1 := by
        have hline : lineLength [10] = 1 := rfl
        rw [pieceLength, hline]
        omega
      have hmore : 0 < ([10] : List UInt8).length := Nat.zero_lt_one
      rw [pieces_of_lt hsize' hmore, hone]
      rfl
    · have htwo : pieceLength linesize [13, 10] = 2 := by
        have hline : lineLength [13, 10] = 2 := rfl
        rw [pieceLength, hline]
        omega
      have hmore : 1 < ([13, 10] : List UInt8).length := Nat.one_lt_two
      rw [pieces_of_lt hsize' (Nat.lt_of_succ_lt hmore), pieces_of_lt hsize' hmore, htwo]
      rfl
  induction hx : x.length using Nat.strong_induction_on generalizing x with
  | _ size ih =>
    have hlen : (x ++ 10 :: blank).length = x.length + 1 + blank.length := by
      rw [List.length_append, List.length_cons]
      omega
    have hblankPos : 0 < blank.length := by rcases hblank with rfl | rfl <;> exact Nat.succ_pos _
    have hpos := pieceLength_pos hsize' (List.append_ne_nil_of_right_ne_nil x (List.cons_ne_nil 10 blank))
    have hle : pieceLength linesize (x ++ 10 :: blank) ≤ x.length + 1 :=
      Nat.le_trans (Nat.min_le_left _ _) (lineLength_le_of_append x blank)
    rw [pieces_of_lt hsize' (k := 0) (by omega), pieces_of_lt hsize' (k := 1) (by omega), List.cons_append]
    congr 1
    -- the first piece is of the lines before the blank one, or it is the last of these
    by_cases hinside : pieceLength linesize (x ++ 10 :: blank) ≤ x.length
    · rw [List.drop_append_of_le_length hinside]
      apply ih _ _ _ rfl
      rw [List.length_drop]
      omega
    · have hline : pieceLength linesize (x ++ 10 :: blank) = x.length + 1 := by omega
      rw [hline, drop_line]
      exact hlast

theorem length_le_of_mem_pieces (hsize : 1 < linesize) {mem l : List UInt8} (h : l ∈ pieces linesize k mem) :
    l.length < linesize := by
  rw [pieces] at h
  generalize mem.length = fuel at h
  induction fuel generalizing mem with
  | zero => cases h
  | succ fuel ih =>
    rw [piecesLoop] at h
    split at h
    · cases h
    · rcases List.mem_cons.mp h with rfl | h
      · have hmin : pieceLength linesize mem ≤ linesize - 1 := Nat.min_le_right _ _
        rw [List.length_take]
        omega
      · exact ih h

end Pieces

/-! ## The loop -/

theorem stringGetline_eq {linesize : Nat} {mem rest : List UInt8} (hnul : 0 ∉ mem) (hline : 10 ∈ mem) :
    stringGetline (mem ++ rest) linesize = some (mem.take (pieceLength linesize mem)) := by
  rw [stringGetline, cstr_append hnul, if_pos (List.mem_append_left _ hline), pieceLength_append hline,
    List.take_append_of_le_length (pieceLength_le linesize mem)]

/-- A part of a text at its end has its last byte. -/
theorem mem_drop_of_last {x : List UInt8} {b : UInt8} {n : Nat} (h : n < (x ++ [b]).length) :
    b ∈ (x ++ [b]).drop n := by
  rw [List.length_append, List.length_singleton] at h
  rw [List.drop_append_of_le_length (by omega)]
  exact List.mem_append_right _ (List.mem_singleton.mpr rfl)

/-- The loop over a head without a NUL takes its pieces one after the other. -/
theorem lineLoop_eq_some_iff {sock : Nat → Answer} {linesize n k fuel pos : Nat} {rewrite : List UInt8 → List UInt8}
    {mem x line : List UInt8} {out out' : Sink UInt8} (hsize : 1 < linesize) (hnul : 0 ∉ mem.take n)
    (hend : mem.take n = x ++ [10]) (hn : (mem.take n).length = n) (hpos : pos ≤ n) :
    lineLoop sock linesize rewrite mem (n - k) fuel pos line out = some out' ↔
      (pieces linesize k ((mem.take n).drop pos)).length < fuel ∧
        (∀ l ∈ pieces linesize k ((mem.take n).drop pos), (rewrite l).length < linesize) ∧
        out.sendEach sock ((pieces linesize k ((mem.take n).drop pos)).map rewrite) = out' := by
  induction fuel generalizing pos line out with
  | zero => exact iff_of_false (fun h => by cases h) fun h => Nat.not_lt_zero _ h.1
  | succ fuel ih =>
    have hlen : ((mem.take n).drop pos).length = n - pos := by rw [List.length_drop, hn]
    rw [lineLoop]
    by_cases hstop : n - k ≤ pos
    · rw [if_pos hstop, pieces_of_le (by omega)]
      simp [Sink.sendEach]
    -- the line that `string_getline` finds is the next piece
    · have hmore : k < ((mem.take n).drop pos).length := by omega
      have hpart : mem.drop pos = (mem.take n).drop pos ++ mem.drop n := by
        rw [← List.drop_append_of_le_length (by omega), List.take_append_drop]
      -- the head ends in a line end, so there is one from every place on
      have hline : 10 ∈ (mem.take n).drop pos := by
        rw [hend] at hn ⊢
        exact mem_drop_of_last (by omega)
      have hnul' : 0 ∉ (mem.take n).drop pos := fun h => hnul (List.mem_of_mem_drop h)
      have hget : stringGetline (mem.drop pos) linesize =
          some (((mem.take n).drop pos).take (pieceLength linesize ((mem.take n).drop pos))) := by
        rw [hpart, stringGetline_eq hnul' hline]
      have hle := pieceLength_le linesize ((mem.take n).drop pos)
      have htake : (((mem.take n).drop pos).take (pieceLength linesize ((mem.take n).drop pos))).length =
          pieceLength linesize ((mem.take n).drop pos) := List.length_take_of_le hle
      rw [if_neg hstop, hget, pieces_of_lt hsize hmore]
      simp only [htake]
      by_cases hfits : linesize ≤
          (rewrite (((mem.take n).drop pos).take (pieceLength linesize ((mem.take n).drop pos)))).length
      · rw [if_pos hfits]
        refine iff_of_false (fun h => by cases h) fun h => ?_
        exact Nat.not_lt.mpr hfits (h.2.1 _ List.mem_cons_self)
      · rw [if_neg hfits, ih (by omega), ← List.drop_drop, List.length_cons, Nat.succ_lt_succ_iff,
          List.forall_mem_cons, List.map_cons, Sink.sendEach]
        constructor
        · rintro ⟨hfuel, hall, hsent⟩
          exact ⟨hfuel, ⟨Nat.not_le.mp hfits, hall⟩, hsent⟩
        · rintro ⟨hfuel, ⟨-, hall⟩, hsent⟩
          exact ⟨hfuel, hall, hsent⟩

/-- A NUL in the head: the pointer never gets behind the line it is in. -/
theorem lineLoop_nul {sock : Nat → Answer} {linesize stop fuel pos : Nat} {rewrite : List UInt8 → List UInt8}
    {a b rest line : List UInt8} {out : Sink UInt8} (ha : a = [] ∨ ∃ y, a = y ++ [10]) (hnulA : 0 ∉ a)
    (hnulB : 0 ∉ b) (hb : 10 ∉ b) (hstop : a.length < stop) (hpos : pos ≤ a.length) :
    lineLoop sock linesize rewrite (a ++ (b ++ 0 :: rest)) stop fuel pos line out = none := by
  induction fuel generalizing pos line out with
  | zero => rfl
  | succ fuel ih =>
    rw [lineLoop, if_neg (by omega)]
    -- in a line before the NUL the loop goes forward, but never past the last of them
    by_cases hbefore : pos < a.length
    · have hline : 10 ∈ a.drop pos := by
        rcases ha with rfl | ⟨y, rfl⟩
        · exact absurd hbefore (Nat.not_lt_zero pos)
        · exact mem_drop_of_last hbefore
      have hget : stringGetline ((a ++ (b ++ 0 :: rest)).drop pos) linesize =
          some ((a.drop pos).take (pieceLength linesize (a.drop pos))) := by
        rw [List.drop_append_of_le_length hpos, stringGetline_eq (fun h => hnulA (List.mem_of_mem_drop h)) hline]
      have hle := pieceLength_le linesize (a.drop pos)
      rw [List.length_drop] at hle
      simp only [hget]
      split
      · rfl
      · apply ih
        rw [List.length_take]
        omega
    -- in the line of the NUL nothing is found, and the pointer goes back by one
    · have hat : pos = a.length := by omega
      have hget : stringGetline ((a ++ (b ++ 0 :: rest)).drop pos) linesize = none := by
        have hzero : cstr (0 :: rest) = [] := rfl
        rw [hat, List.drop_left, stringGetline, cstr_append hnulB, hzero, List.append_nil, if_neg hb]
      simp only [hget]
      split
      · rfl
      · apply ih
        omega

/-- A text is lines and then a part of a line. -/
theorem exists_lines (p : List UInt8) : ∃ a b, p = a ++ b ∧ (a = [] ∨ ∃ y, a = y ++ [10]) ∧ 10 ∉ b := by
  induction p using List.reverseRecOn with
  | nil => exact ⟨[], [], rfl, .inl rfl, List.not_mem_nil⟩
  | append_singleton p c ih =>
    obtain ⟨a, b, rfl, ha, hb⟩ := ih
    by_cases hc : c = 10
    · exact ⟨a ++ b ++ [c], [], (List.append_nil _).symm, .inr ⟨a ++ b, by rw [hc]⟩, List.not_mem_nil⟩
    · refine ⟨a, b ++ [c], List.append_assoc _ _ _, ha, ?_⟩
      rw [List.mem_append, List.mem_singleton, not_or]
      exact ⟨hb, Ne.symm hc⟩

theorem lineLoop_nul_head {sock : Nat → Answer} {linesize stop : Nat} {rewrite : List UInt8 → List UInt8}
    {p rest : List UInt8} (hp : 0 ∉ p) (hstop : p.length < stop) (fuel : Nat) (line : List UInt8)
    (out : Sink UInt8) : lineLoop sock linesize rewrite (p ++ 0 :: rest) stop fuel 0 line out = none := by
  obtain ⟨a, b, rfl, ha, hb⟩ := exists_lines p
  rw [List.mem_append, not_or] at hp
  rw [List.length_append] at hstop
  rw [List.append_assoc]
  exact lineLoop_nul ha hp.1 hp.2 hb (by omega) (Nat.zero_le _)

/-! ## What is a head -/

/-- The bytes of a head: it ends in a blank line. -/
structure IsHead (head : List UInt8) : Prop where
  shape : ∃ x blank, head = x ++ 10 :: blank ∧ (blank = [10] ∨ blank = [13, 10])

theorem IsHead.exists_last {head : List UInt8} (h : IsHead head) : ∃ y, head = y ++ [10] := by
  obtain ⟨x, blank, rfl, rfl | rfl⟩ := h.shape
  · exact ⟨x ++ [10], by simp⟩
  · exact ⟨x ++ [10, 13], by simp⟩

/-- A NUL in a head is not its last byte. -/
theorem IsHead.before_last {head p rest : List UInt8} (h : IsHead head) (hp : head = p ++ 0 :: rest) :
    p.length + 1 < head.length := by
  obtain ⟨y, hy⟩ := h.exists_last
  have hrest : rest ≠ [] := by
    rintro rfl
    have hlast := (List.append_inj' (hp.symm.trans hy) rfl).2
    cases hlast
  have hpos := List.length_pos_iff.mpr hrest
  rw [hp, List.length_append, List.length_cons]
  omega

/-- The first NUL in a head. -/
theorem IsHead.first_nul {head : List UInt8} (h : IsHead head) (hnul : 0 ∈ head) :
    ∃ p rest, head = p ++ 0 :: rest ∧ 0 ∉ p ∧ p.length + 1 < head.length := by
  obtain ⟨p, rest, hp, hplain⟩ := List.eq_append_cons_of_mem hnul
  exact ⟨p, rest, hp, hplain, h.before_last hp⟩

theorem headLengthLoop_eq {pos n : Nat} {mem : List UInt8} (h : headLengthLoop pos mem = some n) :
    ∃ m, n = pos + m ∧ (mem.take m).length = m ∧ IsHead (mem.take m) := by
  induction mem generalizing pos with
  | nil => cases h
  | cons b mem ih =>
    have hfound : ∀ (x blank : List UInt8), (blank = [10] ∨ blank = [13, 10]) →
        x ++ 10 :: blank <+: b :: mem → some (pos + (x ++ 10 :: blank).length) = some n →
        ∃ m, n = pos + m ∧ ((b :: mem).take m).length = m ∧ IsHead ((b :: mem).take m) := by
      rintro x blank hblank ⟨rest, hrest⟩ hn
      have htake : (b :: mem).take (x ++ 10 :: blank).length = x ++ 10 :: blank := by
        rw [← hrest, List.take_left]
      exact ⟨_, (Option.some.inj hn).symm, congrArg List.length htake, ⟨x, blank, htake, hblank⟩⟩
    rw [headLengthLoop] at h
    split at h
    · next hpre => exact hfound [] [10] (.inl rfl) hpre h
    · split at h
      · next hpre => exact hfound [] [13, 10] (.inr rfl) hpre h
      · split at h
        · next hpre => exact hfound [13] [10] (.inl rfl) hpre h
        · split at h
          · next hpre => exact hfound [13] [13, 10] (.inr rfl) hpre h
          · obtain ⟨m, hm, hlen, x, blank, hx, hblank⟩ := ih h
            refine ⟨m + 1, by omega, ?_, b :: x, blank, ?_, hblank⟩
            · rw [List.take_succ_cons, List.length_cons, hlen]
            · rw [List.take_succ_cons, hx, List.cons_append]

theorem httpHeardGetlength_eq {n : Nat} {mem : List UInt8} (h : httpHeardGetlength mem = some n) :
    (mem.take n).length = n ∧ IsHead (mem.take n) := by
  obtain ⟨m, hm, hlen, hhead⟩ := headLengthLoop_eq h
  rw [Nat.zero_add] at hm
  rw [hm]
  exact ⟨hlen, hhead⟩

/-! ## What arrives -/

/-- A head that the proxy relays. -/
inductive Head
  | request (inLocal outRemote : Address)
  | response (reply : Reply)

namespace Head

def relay (sock : Nat → Answer) (fuel : Nat) (mem : List UInt8) (out : Sink UInt8) : Head → Option (Sink UInt8)
  | request inLocal outRemote => loopHttpHeadRequestInOut sock inLocal outRemote fuel mem out
  | response reply => loopHttpHeadResponseInOut sock reply fuel mem out

/-- The pieces that the head is taken in: the lines, as far as `cacheline` holds them, or all of it. -/
def pieces (head : List UInt8) : Head → List (List UInt8)
  | request _ _ => Proxy.pieces 1024 0 head
  | response (.onvif _) => Proxy.pieces 2024 0 head
  | response .onvifEmpty => [head]
  | response .nvr => [head]
  | response .other => Proxy.pieces 1024 0 head

/-- What is sent for a piece. -/
def rewrite : Head → List UInt8 → List UInt8
  | request inLocal outRemote => requestLine inLocal outRemote
  | response (.onvif xmllength) => onvifLine xmllength
  | response _ => id

/-- The pieces as they are to be sent. -/
def rewritten (head : List UInt8) (k : Head) : List (List UInt8) := (k.pieces head).map k.rewrite

/-- A request is read to the end only if its blank line has a carriage return, and no line may overflow `cacheline`
when it is rewritten. -/
def Sendable (head : List UInt8) : Head → Prop
  | request inLocal outRemote =>
    [13, 10] <:+ head ∧ ∀ l ∈ Proxy.pieces 1024 0 head, (requestLine inLocal outRemote l).length < 1024
  | response _ => True

end Head

/-- The blank line of a request has no address in it. -/
theorem requestLine_blank (inLocal outRemote : Address) : requestLine inLocal outRemote [10] = [10] := by
  have habsent : ∀ str : List UInt8, (∃ b ∈ str, b ≠ 10) → (indexOf str [10]).isSome = false := by
    rintro str ⟨b, hb, hne⟩
    rw [Bool.eq_false_iff]
    intro hfound
    rw [indexOf_isSome_iff (List.ne_nil_of_mem hb)] at hfound
    exact hne (List.mem_singleton.mp (hfound.subset hb))
  obtain ⟨b, rest, hip⟩ := List.exists_cons_of_ne_nil inLocal.ip_ne
  have hb : b ≠ 10 := by
    rintro rfl
    exact inLocal.ip_plain (by rw [hip]; exact List.mem_cons_self)
  have hmem : b ∈ inLocal.ip := by
    rw [hip]
    exact List.mem_cons_self
  have hport := habsent inLocal.withPort ⟨b, List.mem_append_left _ hmem, hb⟩
  have hplain := habsent inLocal.ip ⟨b, hmem, hb⟩
  simp only [requestLine, stringReplaceIpinfo, hport, Bool.false_eq_true, if_false, hplain, Option.getD_none]

theorem length_onvifLine_lt (xmllength : Fin 2147483648) {l : List UInt8} (h : l.length < 2024) :
    (onvifLine xmllength l).length < 2024 := by
  have hten : xmllength.val < 10 ^ (9 + 1) := Nat.lt_trans xmllength.isLt (by decide)
  have hdigits : (digitsText xmllength).length ≤ 10 := length_digitsLoop_le hten
  have htext : (text "Content-Length: ").length = 16 := by decide
  rw [onvifLine]
  split
  · rw [List.length_append, List.length_append, htext]
    change _ + 2 < 2024
    omega
  · exact h

/-- What the loop over the lines delivers: all that it should, if the last line is seen, every line fits when it is
rewritten, and the socket takes every one whole. -/
theorem lineLoop_delivers_iff (sock : Nat → Answer) {rewrite : List UInt8 → List UInt8} {linesize n k : Nat}
    {mem : List UInt8} (hsize : 2 < linesize) (hk : k = 0 ∨ k = 1) (hblank : rewrite [10] = [10])
    (hhead : IsHead (mem.take n)) (hn : (mem.take n).length = n) (out : Sink UInt8) :
    (∃ fuel out', lineLoop sock linesize rewrite mem (n - k) fuel 0 [] out = some out' ∧
        out'.delivered = out.delivered ++ ((pieces linesize 0 (mem.take n)).map rewrite).flatten) ↔
      0 ∉ mem.take n ∧ (k = 1 → [13, 10] <:+ mem.take n) ∧
        (∀ l ∈ pieces linesize 0 (mem.take n), (rewrite l).length < linesize) ∧
        TakesAll sock out.calls ((pieces linesize 0 (mem.take n)).map rewrite) := by
  obtain ⟨x, blank, hx, hshape⟩ := hhead.shape
  obtain ⟨y, hend⟩ := hhead.exists_last
  by_cases hnul : 0 ∈ mem.take n
  · refine iff_of_false ?_ fun h => h.1 hnul
    rintro ⟨fuel, out', hrun, -⟩
    obtain ⟨p, rest, hp, hplain, hbefore⟩ := hhead.first_nul hnul
    rw [hn] at hbefore
    -- the loop does not come to an end
    have hmem : mem = p ++ 0 :: (rest ++ mem.drop n) := by
      rw [← List.cons_append, ← List.append_assoc, ← hp, List.take_append_drop]
    rw [hmem, lineLoop_nul_head hplain (by omega)] at hrun
    cases hrun
  · have hloop : ∀ fuel out', lineLoop sock linesize rewrite mem (n - k) fuel 0 [] out = some out' ↔
        (pieces linesize k (mem.take n)).length < fuel ∧
          (∀ l ∈ pieces linesize k (mem.take n), (rewrite l).length < linesize) ∧
          out.sendEach sock ((pieces linesize k (mem.take n)).map rewrite) = out' := fun fuel out' =>
      lineLoop_eq_some_iff (Nat.lt_of_succ_lt hsize) hnul hend hn (Nat.zero_le n)
    by_cases hmiss : k = 1 ∧ blank = [10]
    · -- the blank line is not sent
      obtain ⟨rfl, rfl⟩ := hmiss
      refine iff_of_false ?_ fun h => ?_
      -- so a byte is missing from what is delivered
      · rintro ⟨fuel, out', hrun, hdelivered⟩
        obtain ⟨-, -, hsent⟩ := (hloop fuel out').mp hrun
        obtain ⟨part, hpart, hlen⟩ := out.sendEach_delivered sock
          ((pieces linesize 1 (mem.take n)).map rewrite)
        rw [← hsent, hpart, List.append_cancel_left_eq, hx, pieces_blank hsize hshape, if_pos rfl, List.map_append,
          List.flatten_append, ← hx] at hdelivered
        have hlens := congrArg List.length hdelivered
        rw [List.length_append, List.map_singleton, hblank] at hlens
        change part.length = _ + 1 at hlens
        omega
      · obtain ⟨t, ht⟩ := h.2.1 rfl
        rw [hx] at ht
        have hlast := (List.append_inj' ht rfl).2
        cases hlast
    -- the loop sees all pieces
    · have hsame : pieces linesize k (mem.take n) = pieces linesize 0 (mem.take n) := by
        rcases hk with rfl | rfl
        · rfl
        · rw [hx, pieces_blank hsize hshape, if_neg fun h => hmiss ⟨rfl, h⟩, List.append_nil]
      have hsuffix : k = 1 → [13, 10] <:+ mem.take n := by
        intro hone
        rcases hshape with hlf | hcrlf
        · exact absurd ⟨hone, hlf⟩ hmiss
        · exact ⟨x ++ [10], by rw [hx, hcrlf, List.append_assoc, List.singleton_append]⟩
      rw [hsame] at hloop
      constructor
      · rintro ⟨fuel, out', hrun, hdelivered⟩
        obtain ⟨-, hfits, hsent⟩ := (hloop fuel out').mp hrun
        refine ⟨hnul, hsuffix, hfits, (out.sendEach_delivers_iff sock _).mp ?_⟩
        rw [hsent, hdelivered]
      · rintro ⟨-, -, hfits, htakes⟩
        refine ⟨_, _, (hloop _ _).mpr ⟨Nat.lt_succ_self _, hfits, rfl⟩, ?_⟩
        exact (out.sendEach_delivers_iff sock _).mpr htakes

/-- In a response the last line is always seen, and no rewriting makes a line too long. -/
theorem lineLoop_response_iff (sock : Nat → Answer) {rewrite : List UInt8 → List UInt8} {linesize n : Nat}
    {mem : List UInt8} (hsize : 2 < linesize) (hblank : rewrite [10] = [10])
    (hfits : ∀ l : List UInt8, l.length < linesize → (rewrite l).length < linesize)
    (hhead : IsHead (mem.take n)) (hn : (mem.take n).length = n) (out : Sink UInt8) :
    (∃ fuel out', lineLoop sock linesize rewrite mem n fuel 0 [] out = some out' ∧
        out'.delivered = out.delivered ++ ((pieces linesize 0 (mem.take n)).map rewrite).flatten) ↔
      0 ∉ mem.take n ∧ TakesAll sock out.calls ((pieces linesize 0 (mem.take n)).map rewrite) := by
  have hloop := lineLoop_delivers_iff sock hsize (.inl rfl) hblank hhead hn out
  rw [Nat.sub_zero] at hloop
  rw [hloop]
  constructor
  · rintro ⟨hnul, -, -, htakes⟩
    exact ⟨hnul, htakes⟩
  · rintro ⟨hnul, htakes⟩
    refine ⟨hnul, fun h => absurd h Nat.zero_ne_one, fun l hl => ?_, htakes⟩
    exact hfits l (length_le_of_mem_pieces (Nat.lt_of_succ_lt hsize) hl)

/-! ## The copies of a head -/

section Copies

variable {mem : List UInt8} {n : Nat}

theorem strndup_of_plain (hplain : 0 ∉ mem.take n) (hn : (mem.take n).length = n) : strndup mem n = mem.take n := by
  rw [strndup, cstr_of_notMem hplain, hn, Nat.sub_self, List.replicate_zero, List.append_nil]

/-- From the first NUL on there are only NULs in the copy. -/
theorem strndup_of_nul {p rest : List UInt8} (hp : mem.take n = p ++ 0 :: rest) (hplain : 0 ∉ p)
    (hbefore : p.length + 1 < n) :
    strndup mem n = p ++ 0 :: List.replicate (n - p.length - 1) 0 ∧ cstr (strndup mem n) = p ∧
      (strndup mem n).length = n := by
  have hcstr : ∀ more : List UInt8, cstr (p ++ 0 :: more) = p := fun more => by
    rw [cstr_append hplain, show cstr (0 :: more) = [] from rfl, List.append_nil]
  have hcopy : strndup mem n = p ++ 0 :: List.replicate (n - p.length - 1) 0 := by
    rw [strndup, hp, hcstr, show n - p.length = n - p.length - 1 + 1 by omega, List.replicate_succ,
      Nat.add_sub_cancel]
  refine ⟨hcopy, ?_, ?_⟩
  · rw [hcopy, hcstr]
  · rw [hcopy, List.length_append, List.length_cons, List.length_replicate]
    omega

/-- The copy is not the head then. -/
theorem strndup_ne (hhead : IsHead (mem.take n)) (hlen : (mem.take n).length = n) (hnul : 0 ∈ mem.take n) :
    strndup mem n ≠ mem.take n ∧ (strndup mem n).length ≤ (mem.take n).length := by
  obtain ⟨p, rest, hp, hplain, hbefore⟩ := hhead.first_nul hnul
  rw [hlen] at hbefore
  refine ⟨?_, by rw [(strndup_of_nul hp hplain hbefore).2.2, hlen]⟩
  intro heq
  obtain ⟨y, hy⟩ := hhead.exists_last
  -- the head has a line end behind the NUL, the copy has not
  have hlast : (10 : UInt8) ∈ (mem.take n).drop p.length := by
    rw [hy]
    apply mem_drop_of_last
    rw [← hy, hp, List.length_append, List.length_cons]
    omega
  rw [← heq, (strndup_of_nul hp hplain hbefore).1, List.drop_left] at hlast
  rcases List.mem_cons.mp hlast with hzero | hzero
  · cases hzero
  · cases List.eq_of_mem_replicate hzero

/-- And what is sent of the copy up to its NUL is too short. -/
theorem cstr_strndup_ne (hhead : IsHead (mem.take n)) (hlen : (mem.take n).length = n) (hnul : 0 ∈ mem.take n) :
    cstr (strndup mem n) ≠ mem.take n ∧ (cstr (strndup mem n)).length ≤ (mem.take n).length := by
  obtain ⟨p, rest, hp, hplain, hbefore⟩ := hhead.first_nul hnul
  have hshort : p.length < (mem.take n).length := Nat.lt_of_succ_lt hbefore
  rw [hlen] at hbefore
  rw [(strndup_of_nul hp hplain hbefore).2.1]
  refine ⟨?_, Nat.le_of_lt hshort⟩
  intro heq
  rw [← heq] at hshort
  exact Nat.lt_irrefl _ hshort

end Copies

/-- Something else that is not longer than the head does not deliver it. -/
theorem send_ne {sock : Nat → Answer} {data head : List UInt8} (hne : data ≠ head)
    (hlen : data.length ≤ head.length) (out : Sink UInt8) :
    (out.send sock data).delivered ≠ out.delivered ++ head := by
  intro h
  rw [Sink.send, List.append_cancel_left_eq] at h
  have hlens := congrArg List.length h
  rw [List.length_take] at hlens
  rw [List.take_of_length_le (by omega)] at h
  exact hne h

/-- A head that is sent at once, from a copy that is the head only if there is no NUL in it. -/
theorem send_delivers_iff (sock : Nat → Answer) {data head : List UInt8} (hsame : 0 ∉ head → data = head)
    (hother : 0 ∈ head → data ≠ head ∧ data.length ≤ head.length) (out : Sink UInt8) :
    (∃ (_ : Nat) (out' : Sink UInt8), some (out.send sock data) = some out' ∧
        out'.delivered = out.delivered ++ ([head].map id).flatten) ↔
      0 ∉ head ∧ TakesAll sock out.calls ([head].map id) := by
  rw [List.map_id, List.flatten_singleton]
  by_cases hnul : 0 ∈ head
  · refine iff_of_false ?_ fun h => h.1 hnul
    rintro ⟨-, out', hout, hdelivered⟩
    cases hout
    exact send_ne (hother hnul).1 (hother hnul).2 out hdelivered
  · have hsent := out.sendEach_delivers_iff sock [head]
    rw [List.flatten_singleton] at hsent
    rw [hsame hnul, ← hsent]
    constructor
    · rintro ⟨-, out', hout, hdelivered⟩
      cases hout
      exact ⟨hnul, hdelivered⟩
    · rintro ⟨-, hdelivered⟩
      exact ⟨0, _, rfl, hdelivered⟩

/-- **A head arrives, all of it as it is rewritten, in order and once**, if and only if there is no NUL in it, the
request can be sent line by line, and the socket takes every piece whole. -/
theorem relayed_iff (k : Head) {mem : List UInt8} {n : Nat} (hn : httpHeardGetlength mem = some n)
    (sock : Nat → Answer) (out : Sink UInt8) :
    (∃ fuel out', k.relay sock fuel mem out = some out' ∧
        out'.delivered = out.delivered ++ (k.rewritten (mem.take n)).flatten) ↔
      0 ∉ mem.take n ∧ k.Sendable (mem.take n) ∧ TakesAll sock out.calls (k.rewritten (mem.take n)) := by
  obtain ⟨hlen, hhead⟩ := httpHeardGetlength_eq hn
  cases k with
  | request inLocal outRemote =>
    have hline : 2 < 1024 := by decide
    simp only [Head.relay, loopHttpHeadRequestInOut, hn]
    rw [Head.rewritten, Head.pieces, Head.rewrite,
      lineLoop_delivers_iff sock hline (.inr rfl) (requestLine_blank inLocal outRemote) hhead hlen out, Head.Sendable]
    simp only [true_implies, and_assoc]
  | response reply =>
    have hsend : (Head.response reply).Sendable (mem.take n) := trivial
    cases reply with
    | other =>
      have hline : 2 < 1024 := by decide
      have hblank : id ([10] : List UInt8) = [10] := rfl
      simp only [Head.relay, loopHttpHeadResponseInOut, hn]
      refine (lineLoop_response_iff sock hline hblank (fun l hl => hl) hhead hlen out).trans ?_
      exact and_congr_right' (and_iff_right hsend).symm
    | onvif xmllength =>
      have hline : 2 < 2024 := by decide
      have hblank : onvifLine xmllength [10] = [10] := rfl
      have hself : (mem.take n).take n = mem.take n := by rw [List.take_take, Nat.min_self]
      simp only [Head.relay, loopHttpHeadResponseInOut, hn]
      by_cases hnul : 0 ∈ mem.take n
      · refine iff_of_false ?_ fun h => h.1 hnul
        rintro ⟨fuel, out', hrun, -⟩
        obtain ⟨p, rest, hp, hplain, hbefore⟩ := hhead.first_nul hnul
        rw [hlen] at hbefore
        rw [(strndup_of_nul hp hplain hbefore).1, lineLoop_nul_head hplain (by omega)] at hrun
        cases hrun
      · rw [strndup_of_plain hnul hlen]
        have hloop := lineLoop_response_iff sock hline hblank (fun l => length_onvifLine_lt xmllength)
          (by rw [hself]; exact hhead) (by rw [hself]; exact hlen) out
        rw [hself] at hloop
        exact hloop.trans (and_congr_right' (and_iff_right hsend).symm)
    | onvifEmpty =>
      simp only [Head.relay, loopHttpHeadResponseInOut, hn]
      refine (send_delivers_iff sock (fun hnul => ?_) (strndup_ne hhead hlen) out).trans
        (and_congr_right' (and_iff_right hsend).symm)
      rw [strndup_of_plain hnul hlen]
    | nvr =>
      simp only [Head.relay, loopHttpHeadResponseInOut, hn]
      refine (send_delivers_iff sock (fun hnul => ?_) (cstr_strndup_ne hhead hlen) out).trans
        (and_congr_right' (and_iff_right hsend).symm)
      rw [strndup_of_plain hnul hlen, cstr_of_notMem hnul]

/-- `GET / HTTP/1.1` and a blank line. -/
def getHead : List UInt8 := text "GET / HTTP/1.1\r\n\r\n"

/-- The proxy at 192.168.0.2:80, and the server behind it at 10.0.0.1:80. -/
def proxyAddress : Address := ⟨text "192.168.0.2", 80, by decide, by decide, by decide, by decide⟩

def serverAddress : Address := ⟨text "10.0.0.1", 80, by decide, by decide, by decide, by decide⟩

theorem relayed_iff_get :
    (∃ fuel out', (Head.request proxyAddress serverAddress).relay (fun _ => .took 1000) fuel getHead ⟨[], 0⟩ = some out' ∧
        out'.delivered = [] ++ ((Head.request proxyAddress serverAddress).rewritten (getHead.take 18)).flatten) ↔
      0 ∉ getHead.take 18 ∧ (Head.request proxyAddress serverAddress).Sendable (getHead.take 18) ∧
        TakesAll (fun _ => .took 1000) 0 ((Head.request proxyAddress serverAddress).rewritten (getHead.take 18)) :=
  relayed_iff (.request proxyAddress serverAddress) (by decide) (fun _ => .took 1000) ⟨[], 0⟩

/-- A socket that takes four bytes at a time: of the first line only `GET ` arrives. -/
theorem get_not_relayed :
    ¬∀ (k : Head) (mem : List UInt8) (n : Nat), httpHeardGetlength mem = some n →
      ∀ (sock : Nat → Answer) (out : Sink UInt8), ∃ fuel out', k.relay sock fuel mem out = some out' ∧
        out'.delivered = out.delivered ++ (k.rewritten (mem.take n)).flatten := by
  intro hall
  have hlength : httpHeardGetlength getHead = some 18 := by decide
  have hline : 2 < 1024 := by decide
  obtain ⟨hlen, hhead⟩ := httpHeardGetlength_eq hlength
  have hrelayed := hall (.request proxyAddress serverAddress) getHead 18 hlength (fun _ => .took 4) ⟨[], 0⟩
  simp only [Head.relay, loopHttpHeadRequestInOut, hlength] at hrelayed
  have htakes := ((lineLoop_delivers_iff (fun _ => .took 4) hline (.inr rfl)
    (requestLine_blank proxyAddress serverAddress) hhead hlen ⟨[], 0⟩).mp hrelayed).2.2.2
  have hfirst : ((pieces 1024 0 (getHead.take 18)).map (requestLine proxyAddress serverAddress))[0]? =
      some (text "GET / HTTP/1.1\r\n") := by decide +kernel
  have hfour := htakes 0 _ hfirst
  revert hfour
  decide

end ProgrammingPath.Proxy
