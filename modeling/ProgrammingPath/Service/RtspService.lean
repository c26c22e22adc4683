import ProgrammingPath.Forward.Message
import ProgrammingPath.Lib.OnePerRead
import ProgrammingPath.Lib.Run

/-!
# The RTSP service

`rtsp_service_rwhandle` reads what the socket has into a buffer of 1024 bytes and looks for the end of a head in it;
`rtsp_handle` answers that request and takes its bytes out. It does so once for each read, whatever else is in the
buffer, so the requests of a client are answered as far as there are reads: `answers_iff` says when these are enough.
-/

namespace ProgrammingPath.RtspService

open ProgrammingPath.Lib
open ProgrammingPath.Rtsp (scanInt scanInt_append_line scanInt_digits decimal isDigit isDigit_facts isSpace)
open ProgrammingPath.Forward (unlines unlines_cons length_le_unlines decimal_digitsText)

/-! ## The buffer -/

/-- `CONFIG_SESSION_RWBUFF_SIZE`. -/
def rwBuffSize : Nat := 1024

/-- `struct cache_array`: how far `use_sptr` is behind the beginning, and the bytes from there to `use_eptr`. -/
structure CacheArray where
  start : Nat
  used : List UInt8

/-- `cache_array_init`. -/
def CacheArray.init : CacheArray := ⟨0, []⟩

/-- `cache_array_remainlen`. -/
def CacheArray.remainlen (a : CacheArray) : Nat := rwBuffSize - (a.start + a.used.length)

/-- `cache_array_remainlen_tran`, which moves the bytes to the beginning with `memcpy`: `none` when they overlap their
new place. -/
def CacheArray.remainlenTran (a : CacheArray) : Option CacheArray :=
  if a.start = 0 then some a
  else if a.start < a.used.length then none
  else some ⟨0, a.used⟩

/-- `cache_array_uselen_add`, with the bytes that were put there; it ends the program when they are too many. -/
def CacheArray.uselenAdd (a : CacheArray) (data : List UInt8) : Option CacheArray :=
  if rwBuffSize < a.start + (a.used ++ data).length then none else some ⟨a.start, a.used ++ data⟩

/-- `cache_array_usedlen_sub`. -/
def CacheArray.usedlenSub (a : CacheArray) (n : Nat) : CacheArray := ⟨a.start + n, a.used.drop n⟩

/-! ## The head of a request -/

/-- `strhttp_head_end`, as an offset: `last` is where the last line end was. -/
def headEndLoop : Nat → Option Nat → List UInt8 → Option Nat
  | _, _, [] => none
  | pos, last, b :: rest =>
    if b = 10 then
      -- at most a carriage return since the last line end
      if last.any (pos - · ≤ 2) then some (pos + 1) else headEndLoop (pos + 1) (some pos) rest
    else headEndLoop (pos + 1) last rest

def headEnd (used : List UInt8) : Option Nat := headEndLoop 0 none used

/-- `atoi` as the library computes it: `strtol` keeps to the range of a `long`, of which the low half is taken. -/
def atoi (mem : List UInt8) : Int :=
  Int.bmod (max (-9223372036854775808) (min ((scanInt mem).getD 0) 9223372036854775807)) 4294967296

/-- The number behind the name of a header: colons and blanks are skipped. -/
def itemValue (mem : List UInt8) : Int := atoi (mem.dropWhile fun b => b == 58 || b == 32)

/-- The loop of `strhttp_head_getvalueint`: `head` is what lies before `httpend`, `behind` what follows it, which `atoi`
may read. `fuel` bounds the number of lines. -/
def getValueLoop (name : List UInt8) (defvalue : Int) (behind : List UInt8) : Nat → List UInt8 → Int
  | 0, _ => defvalue
  | fuel + 1, head =>
    if head = [] then defvalue
    -- the name is compared with what is behind the head as well
    else if lineLength head < head.length ∧ startsCI name (head ++ behind) = true then
      itemValue ((head ++ behind).drop name.length)
    else getValueLoop name defvalue behind fuel (head.drop (lineLength head))

/-- `strhttp_head_getvalueint`. -/
def getValueInt (head behind name : List UInt8) (defvalue : Int) : Int :=
  getValueLoop name defvalue behind head.length head

/-! ## The session -/

/-- `struct rtsp_session`, and the responses that were put into `out_array`. -/
structure Session where
  inArray : CacheArray
  outArray : CacheArray
  cseq : Int
  appended : List (List UInt8)

/-- `rtsp_session_new`. -/
def Session.init : Session := ⟨.init, .init, 0, []⟩

/-- `%d`. -/
def showInt (v : Int) : List UInt8 := if v < 0 then 45 :: digitsText v.natAbs else digitsText v.toNat

def formatBefore : List UInt8 := text "RTSP/1.0 200 OK\r\nCSeq: "

def formatBehind : List UInt8 :=
  text ("\r\nServer: cjrtsp\r\nCache-Control: no-cache\r\n" ++
    "Public: DESCRIBE, SETUP, TEARDOWN, PLAY, PAUSE, OPTIONS, ANNOUNCE, RECORD, GET_PARAMETER\r\n\r\n")

/-- `strlen(format)`. -/
def formatLength : Nat := formatBefore.length + 2 + formatBehind.length

/-- What `OPTIONS_handle` prints. -/
def response (cseq : Int) : List UInt8 := formatBefore ++ showInt cseq ++ formatBehind

/-- `OPTIONS_handle`. -/
def optionsHandle (s : Session) : Option Session :=
  let need := formatLength + 30
  (if s.outArray.remainlen < need then s.outArray.remainlenTran else some s.outArray).bind fun out =>
    if out.remainlen < need then some { s with outArray := out }
    else
      (out.uselenAdd (response s.cseq)).map fun out =>
        { s with outArray := out, appended := s.appended ++ [response s.cseq] }

/-- `rtsp_handle`, whose result nobody asks for. The blank behind the URL is overwritten; `none` when the search for
it leaves what was received. A `DESCRIBE` is answered without the buffer. -/
def rtspHandle (s : Session) : Option Session :=
  match headEnd s.inArray.used with
  | none => some s
  | some n =>
    let used := s.inArray.used
    -- `method` has room for 29 letters
    let method := ((used.take n).take 29).takeWhile (· != 32)
    if n ≤ method.length then some s
    else
      let rest := used.drop (method.length + 1)
      let url := rest.takeWhile (· != 32)
      -- nobody stops the search for the blank behind the URL
      if rest.length ≤ url.length then none
      else
        let used := used.set (method.length + 1 + url.length) 0
        let next := lineLength (s.inArray.used.take n)
        let s := { s with
          inArray := ⟨s.inArray.start, used⟩
          cseq := getValueInt ((used.take n).drop next) (used.drop n) (text "cseq") (-1) }
        (if (cstr method).map toLower = text "options" then optionsHandle s else some s).map fun s =>
          { s with inArray := s.inArray.usedlenSub n }

/-- The room for a read: at the end of the buffer the bytes are moved first. The session ends when there is none. -/
def CacheArray.makeRoom (a : CacheArray) : Option CacheArray :=
  if a.remainlen = 0 then
    a.remainlenTran.bind fun a => if a.remainlen = 0 then none else some a
  else some a

/-- `PS_EVENT_RECV` with a read of these bytes, and then as many `PS_EVENT_WRITE` as it takes to send the output. -/
def step (s : Session) (chunk : List UInt8) : Option Session :=
  s.inArray.makeRoom.bind fun a =>
    if chunk = [] then none
    else
      (a.uselenAdd chunk).bind fun a =>
        (rtspHandle { s with inArray := a }).map fun s =>
          { s with outArray := s.outArray.usedlenSub s.outArray.used.length }

/-- `recv` gives at least a byte, and no more than there is room for. -/
def Readable (s : Session) (chunk : List UInt8) : Prop :=
  chunk ≠ [] ∧ ∀ a, s.inArray.makeRoom = some a → chunk.length ≤ a.remainlen

/-- At the end of the buffer the bytes fit before themselves. -/
def Movable (s : Session) (_ : List UInt8) : Prop :=
  s.inArray.remainlen = 0 → s.inArray.used.length ≤ s.inArray.start

/-! ## The end of a head -/

theorem headEndLoop_line {l : List UInt8} (hl : 10 ∉ l) (pos : Nat) (last : Option Nat) (rest : List UInt8) :
    headEndLoop pos last (l ++ rest) = headEndLoop (pos + l.length) last rest := by
  induction l generalizing pos with
  | nil => rfl
  | cons b l ih =>
    rw [List.mem_cons, not_or] at hl
    rw [List.cons_append, headEndLoop, if_neg (Ne.symm hl.1), ih hl.2, List.length_cons, Nat.add_assoc,
      Nat.add_comm 1]

/-- Lines that are not blank are passed over, and a blank one is the end. -/
theorem headEndLoop_lines {lines : List (List UInt8)} (hlines : ∀ l ∈ lines, 10 ∉ l ∧ 2 ≤ l.length)
    {blank : List UInt8} (hblank : 10 ∉ blank) (hshort : blank.length ≤ 1) (pos : Nat) (behind : List UInt8) :
    headEndLoop (pos + 1) (some pos) (unlines lines ++ (blank ++ 10 :: behind)) =
      some (pos + 1 + (unlines lines ++ (blank ++ [10])).length) := by
  induction lines generalizing pos with
  | nil =>
    -- the two line ends are next to each other, but for a carriage return
    have hnear : (some pos).any (pos + 1 + blank.length - · ≤ 2) = true := by
      rw [Option.any_some, decide_eq_true_iff]
      omega
    rw [show unlines [] ++ (blank ++ 10 :: behind) = blank ++ 10 :: behind from rfl, headEndLoop_line hblank,
      headEndLoop, if_pos rfl, if_pos hnear]
    simp [Nat.add_assoc]
  | cons l lines ih =>
    obtain ⟨hl, hlong⟩ := hlines l List.mem_cons_self
    -- a line of two bytes keeps them apart
    have hfar : ¬(some pos).any (pos + 1 + l.length - · ≤ 2) = true := by
      rw [Option.any_some, decide_eq_true_iff]
      omega
    rw [unlines_cons, headEndLoop_line hl, headEndLoop, if_pos rfl, if_neg hfar,
      ih fun l' hl' => hlines l' (List.mem_cons_of_mem _ hl'), unlines_cons]
    simp only [List.length_append, List.length_cons]
    congr 1
    omega

/-- An end that was found stays where it is when more is received. -/
theorem headEndLoop_append {pos n : Nat} {last : Option Nat} {l : List UInt8}
    (h : headEndLoop pos last l = some n) (more : List UInt8) :
    headEndLoop pos last (l ++ more) = some n ∧ n ≤ pos + l.length := by
  induction l generalizing pos last with
  | nil => cases h
  | cons b l ih =>
    rw [headEndLoop] at h
    rw [List.cons_append, headEndLoop, List.length_cons]
    by_cases hb : b = 10
    · rw [if_pos hb] at h ⊢
      by_cases hnear : last.any (pos - · ≤ 2) = true
      · rw [if_pos hnear] at h ⊢
        cases h
        exact ⟨rfl, by omega⟩
      · rw [if_neg hnear] at h ⊢
        obtain ⟨heq, hle⟩ := ih h
        exact ⟨heq, by omega⟩
    · rw [if_neg hb] at h ⊢
      obtain ⟨heq, hle⟩ := ih h
      exact ⟨heq, by omega⟩

/-! ## The value of a header -/

theorem atoi_stop {v : List UInt8} (hv : ∃ b ∈ v, isSpace b = false) (behind : List UInt8) :
    atoi (v ++ 10 :: behind) = atoi (v ++ [10]) := by
  rw [atoi, scanInt_append_line hv, atoi, scanInt_append_line hv]

/-- What is not dropped stays. -/
theorem mem_dropWhile {α : Type} {p : α → Bool} {l : List α} {x : α} (hx : x ∈ l) (hp : ¬p x = true) :
    x ∈ l.dropWhile p := by
  rw [← List.takeWhile_append_dropWhile (p := p) (l := l)] at hx
  rcases List.mem_append.mp hx with hx | hx
  · exact absurd (List.mem_takeWhile_imp hx) hp
  · exact hx

theorem itemValue_stop {v : List UInt8} (hv : ∃ b ∈ v, isSpace b = false ∧ b ≠ 58) (behind : List UInt8) :
    itemValue (v ++ 10 :: behind) = itemValue (v ++ [10]) := by
  let skip : UInt8 → Bool := fun b => b == 58 || b == 32
  obtain ⟨b, hb, hspace, hcolon⟩ := hv
  have hskip : ¬skip b = true := by
    intro h
    rcases Bool.or_eq_true_iff.mp h with h | h
    · exact hcolon (eq_of_beq h)
    · rw [eq_of_beq h] at hspace
      cases hspace
  have hstay : b ∈ v.dropWhile skip := mem_dropWhile hb hskip
  have hdrop : ∀ more : List UInt8, (v ++ more).dropWhile skip = v.dropWhile skip ++ more := by
    intro more
    rw [List.dropWhile_append, if_neg]
    rw [List.isEmpty_iff]
    exact List.ne_nil_of_mem hstay
  have hvalue : ∀ mem : List UInt8, itemValue mem = atoi (mem.dropWhile skip) := fun _ => rfl
  rw [hvalue, hvalue, hdrop, hdrop, atoi_stop ⟨b, hstay, hspace⟩]

/-- The value comes from the first line that begins with the name; the blank line is not looked at. -/
theorem getValueLoop_lines {name : List UInt8} (hname : ∀ b ∈ name, toLower b ≠ 10) (blank : List UInt8)
    (defvalue : Int) (behind : List UInt8) {lines : List (List UInt8)} (hlines : ∀ l ∈ lines, 10 ∉ l)
    {found : List (List UInt8)} (hfound : lines.dropWhile (fun l => !startsCI name l) = found) (hne : found ≠ [])
    {fuel : Nat} (hfuel : lines.length ≤ fuel) :
    getValueLoop name defvalue behind fuel (unlines lines ++ (blank ++ [10])) =
      itemValue ((unlines found ++ (blank ++ [10]) ++ behind).drop name.length) := by
  induction lines generalizing fuel with
  | nil => exact absurd hfound.symm hne
  | cons l lines ih =>
    have hl := hlines l List.mem_cons_self
    obtain ⟨fuel, rfl⟩ : ∃ k, fuel = k + 1 := ⟨fuel - 1, by simp at hfuel; omega⟩
    have hstop : startsCI name (l ++ 10 :: (unlines lines ++ (blank ++ [10]) ++ behind)) = startsCI name l := by
      rw [Bool.eq_iff_iff]
      exact ⟨startsCI_of_stop hname, fun h => startsCI_append h _⟩
    have hhead : unlines (l :: lines) ++ (blank ++ [10]) ++ behind =
        l ++ 10 :: (unlines lines ++ (blank ++ [10]) ++ behind) := by
      rw [unlines_cons, List.append_assoc, List.cons_append]
    -- the last line is never looked at, and this one is not the last
    have hmore : lineLength (unlines (l :: lines) ++ (blank ++ [10])) <
        (unlines (l :: lines) ++ (blank ++ [10])).length := by
      rw [unlines_cons, lineLength_line hl]
      simp
    have hsome : unlines (l :: lines) ++ (blank ++ [10]) ≠ [] := by simp
    rw [getValueLoop, if_neg hsome, hhead, hstop]
    by_cases hstarts : startsCI name l = true
    · rw [List.dropWhile_cons_of_neg (by rw [hstarts]; exact Bool.false_ne_true)] at hfound
      rw [if_pos ⟨hmore, hstarts⟩, ← hfound, hhead]
    · rw [List.dropWhile_cons_of_pos (by simpa using hstarts)] at hfound
      rw [if_neg fun h => hstarts h.2, unlines_cons, lineLength_line hl,
        drop_line]
      exact ih (fun l' hl' => hlines l' (List.mem_cons_of_mem _ hl')) hfound (Nat.le_of_succ_le_succ hfuel)

/-! ## Requests -/

/-- A line that gives the sequence number `n`. -/
structure IsCSeq (n : Nat) (line : List UInt8) : Prop where
  parts : ∃ name blanks digits trailing, line = name ++ 58 :: (blanks ++ (digits ++ trailing)) ∧
    name.map toLower = text "cseq" ∧ (∀ b ∈ blanks, isSpace b = true) ∧ digits ≠ [] ∧
    (∀ d ∈ digits, isDigit d = true) ∧ decimal digits = n ∧ ∀ b ∈ trailing, isSpace b = true

/-- The bytes of an `OPTIONS` request. A line has the carriage return that belongs to its end. -/
def optionsBytes (url version : List UInt8) (lines : List (List UInt8)) (blank : List UInt8) : List UInt8 :=
  text "OPTIONS " ++ (url ++ 32 :: (version ++ 10 :: (unlines lines ++ (blank ++ [10]))))

/-- An `OPTIONS` request that fits into the buffer. -/
structure Request where
  url : List UInt8
  version : List UInt8
  lines : List (List UInt8)
  blank : List UInt8
  cseq : Nat
  url_plain : 32 ∉ url ∧ 10 ∉ url
  version_plain : 10 ∉ version
  lines_plain : ∀ l ∈ lines, 10 ∉ l ∧ 2 ≤ l.length
  blank_plain : blank = [] ∨ blank = [13]
  cseq_line : ∃ l ∈ lines, IsCSeq cseq l
  cseq_lt : cseq < 2147483648
  fits : (optionsBytes url version lines blank).length < rwBuffSize

def Request.bytes (r : Request) : List UInt8 := optionsBytes r.url r.version r.lines r.blank

/-- The lines from the first one on that begins with the letters of the name, and be it another header. -/
def Request.fromCseq (r : Request) : List (List UInt8) := r.lines.dropWhile fun l => !startsCI (text "cseq") l

/-- The number behind these letters. -/
def Request.announced (r : Request) : Int := itemValue ((unlines r.fromCseq ++ (r.blank ++ [10])).drop 4)

theorem text_cseq : text "cseq" = [99, 115, 101, 113] := by decide

theorem length_text_options : (text "OPTIONS ").length = 8 := by decide

variable {n : Nat} {line : List UInt8}

theorem IsCSeq.startsCI (h : IsCSeq n line) : startsCI (text "cseq") line = true := by
  obtain ⟨name, blanks, digits, trailing, rfl, hname, -⟩ := h.parts
  have hlen := congrArg List.length hname
  rw [List.length_map] at hlen
  rw [startsCI_iff, ← hlen, List.take_left, hname, text_cseq]
  decide

/-- There is a digit behind the name. -/
theorem IsCSeq.exists_digit (h : IsCSeq n line) : ∃ d ∈ line.drop 4, isDigit d = true := by
  obtain ⟨name, blanks, digits, trailing, rfl, hname, -, hne, hdigits, -⟩ := h.parts
  have hlen := congrArg List.length hname
  rw [List.length_map, text_cseq] at hlen
  change name.length = 4 at hlen
  obtain ⟨d, ds, rfl⟩ := List.exists_cons_of_ne_nil hne
  refine ⟨d, ?_, hdigits d List.mem_cons_self⟩
  rw [List.drop_left' hlen]
  simp

theorem isDigit_plain {d : UInt8} (h : isDigit d = true) : isSpace d = false ∧ d ≠ 58 := by
  refine ⟨(isDigit_facts h).2.1, ?_⟩
  rintro rfl
  cases h

namespace Request

variable (r : Request)

theorem ten_notMem_blank : 10 ∉ r.blank := by
  rcases r.blank_plain with h | h
  · rw [h]
    exact List.not_mem_nil
  · rw [h]
    decide

theorem length_blank_le : r.blank.length ≤ 1 := by
  rcases r.blank_plain with h | h
  · rw [h]
    exact Nat.zero_le 1
  · rw [h]
    exact Nat.le_refl 1

/-- The first line of the request. -/
def firstLine : List UInt8 := text "OPTIONS " ++ (r.url ++ 32 :: r.version)

theorem bytes_eq : r.bytes = r.firstLine ++ 10 :: (unlines r.lines ++ (r.blank ++ [10])) := by
  simp [bytes, optionsBytes, firstLine]

theorem ten_notMem_firstLine : 10 ∉ r.firstLine := by
  have htext : 10 ∉ text "OPTIONS " := by decide
  have h32 : (10 : UInt8) ≠ 32 := by decide
  rw [firstLine, List.mem_append, List.mem_append, List.mem_cons]
  rintro (h | h | h | h)
  · exact htext h
  · exact r.url_plain.2 h
  · exact h32 h
  · exact r.version_plain h

theorem bytes_ne_nil : r.bytes ≠ [] := by
  rw [bytes_eq]
  simp

theorem length_bytes_pos : 0 < r.bytes.length := List.length_pos_iff.mpr r.bytes_ne_nil

/-- The end of the head is found where the request ends. -/
theorem headEnd_bytes (behind : List UInt8) : headEnd (r.bytes ++ behind) = some r.bytes.length := by
  have happ : r.bytes ++ behind = r.firstLine ++ 10 :: (unlines r.lines ++ (r.blank ++ 10 :: behind)) := by
    rw [bytes_eq]
    simp
  rw [happ, headEnd, headEndLoop_line r.ten_notMem_firstLine, headEndLoop, if_pos rfl,
    if_neg (by rw [Option.any_none]; exact Bool.false_ne_true),
    headEndLoop_lines r.lines_plain r.ten_notMem_blank r.length_blank_le, bytes_eq]
  simp only [List.length_append, List.length_cons]
  congr 1
  omega

/-- And before all of it is there, no end is found. -/
theorem headEnd_part {used more : List UInt8} (h : r.bytes = used ++ more) (hmore : more ≠ []) :
    headEnd used = none := by
  cases hend : headEnd used with
  | none => rfl
  | some k =>
    exfalso
    obtain ⟨hwhole, hle⟩ := headEndLoop_append hend more
    have hbytes := r.headEnd_bytes []
    rw [List.append_nil, h, headEnd, hwhole, Option.some.injEq, List.length_append] at hbytes
    have := List.length_pos_iff.mpr hmore
    omega

theorem fromCseq_ne_nil : r.fromCseq ≠ [] := by
  obtain ⟨l, hl, hcseq⟩ := r.cseq_line
  intro hnil
  have hall := List.dropWhile_eq_nil_iff.mp hnil l hl
  rw [hcseq.startsCI] at hall
  cases hall

/-- Behind the first four letters of these lines there is a digit, in the `CSeq` line if not before. -/
theorem exists_digit :
    4 ≤ (unlines r.fromCseq).length ∧ ∃ d ∈ (unlines r.fromCseq).drop 4, isDigit d = true := by
  obtain ⟨l, hl, hcseq⟩ := r.cseq_line
  obtain ⟨d, hd, hdigit⟩ := hcseq.exists_digit
  have hmem : l ∈ r.fromCseq := mem_dropWhile hl (by rw [hcseq.startsCI]; exact Bool.false_ne_true)
  have hstarts : (!Lib.startsCI (text "cseq") (r.fromCseq.head r.fromCseq_ne_nil)) = false :=
    List.head_dropWhile_not _ r.fromCseq_ne_nil
  obtain ⟨first, ls, hfound⟩ := List.exists_cons_of_ne_nil r.fromCseq_ne_nil
  have hlong : 4 ≤ first.length := by
    have hfirst : Lib.startsCI (text "cseq") first = true := by simpa [hfound] using hstarts
    exact startsCI_length_le hfirst
  rw [hfound] at hmem ⊢
  have happ := unlines_cons first ls []
  rw [List.append_nil, List.append_nil] at happ
  rw [happ]
  constructor
  · rw [List.length_append]
    exact Nat.le_add_right_of_le hlong
  · refine ⟨d, ?_, hdigit⟩
    rw [List.drop_append_of_le_length hlong, List.mem_append]
    -- the digit is in the first line, or in one behind it
    rcases List.mem_cons.mp hmem with rfl | hmem
    · exact .inl hd
    · refine .inr (List.mem_cons_of_mem _ ?_)
      rw [unlines, List.mem_flatMap]
      exact ⟨l, hmem, List.mem_append_left _ (List.mem_of_mem_drop hd)⟩

/-- The number is the one that the code finds, whatever is behind the request. -/
theorem getValueInt_eq (behind : List UInt8) :
    getValueInt (unlines r.lines ++ (r.blank ++ [10])) behind (text "cseq") (-1) = r.announced := by
  have hname : ∀ b ∈ text "cseq", toLower b ≠ 10 := by
    have hall : (text "cseq").all (fun b => toLower b != 10) = true := by decide
    intro b hb
    exact bne_iff_ne.mp (List.all_eq_true.mp hall b hb)
  have hfour : (text "cseq").length = 4 := by decide
  have hfuel : r.lines.length ≤ (unlines r.lines ++ (r.blank ++ [10])).length := by
    rw [List.length_append]
    exact Nat.le_add_right_of_le (length_le_unlines r.lines)
  obtain ⟨hlong, d, hd, hdigit⟩ := r.exists_digit
  have hdrop : ∀ more : List UInt8, (unlines r.fromCseq ++ (r.blank ++ 10 :: more)).drop 4 =
      ((unlines r.fromCseq).drop 4 ++ r.blank) ++ 10 :: more := fun more => by
    rw [List.drop_append_of_le_length hlong, List.append_assoc]
  have hfound : r.lines.dropWhile (fun l => !Lib.startsCI (text "cseq") l) = r.fromCseq := rfl
  calc getValueInt (unlines r.lines ++ (r.blank ++ [10])) behind (text "cseq") (-1)
      = itemValue ((unlines r.fromCseq ++ (r.blank ++ [10]) ++ behind).drop 4) := by
        rw [getValueInt, getValueLoop_lines hname r.blank (-1) behind (fun l hl => (r.lines_plain l hl).1) hfound
          r.fromCseq_ne_nil hfuel, hfour]
    _ = itemValue (((unlines r.fromCseq).drop 4 ++ r.blank) ++ 10 :: behind) := by
        rw [← hdrop behind]
        simp only [List.append_assoc, List.singleton_append]
    _ = itemValue (((unlines r.fromCseq).drop 4 ++ r.blank) ++ [10]) :=
        itemValue_stop ⟨d, List.mem_append_left _ hd, isDigit_plain hdigit⟩ behind
    _ = r.announced := by rw [← hdrop [], announced]

end Request

theorem atoi_eq {mem : List UInt8} {n : Nat} (h : scanInt mem = some (n : Int)) (hn : n < 2147483648) :
    atoi mem = n := by
  rw [atoi, h, Option.getD_some]
  rw [show max (-9223372036854775808) (min (n : Int) 9223372036854775807) = n by omega]
  exact Int.bmod_eq_of_le (by omega) (by omega)

/-- The usual case: the first line that begins with the name is the one with the number. -/
theorem Request.announced_eq {r : Request} {l : List UInt8} {ls : List (List UInt8)} (h : r.fromCseq = l :: ls)
    (hl : IsCSeq r.cseq l) : r.announced = r.cseq := by
  obtain ⟨name, blanks, digits, trailing, rfl, hname, hblanks, hne, hdigits, hvalue, htrailing⟩ := hl.parts
  have hlen := congrArg List.length hname
  rw [List.length_map, text_cseq] at hlen
  change name.length = 4 at hlen
  let skip : UInt8 → Bool := fun b => b == 58 || b == 32
  obtain ⟨d, ds, rfl⟩ := List.exists_cons_of_ne_nil hne
  have hd := isDigit_plain (hdigits d List.mem_cons_self)
  have hstop : ¬skip d = true := by
    intro hskip
    rcases Bool.or_eq_true_iff.mp hskip with hcolon | hblank
    · exact hd.2 (eq_of_beq hcolon)
    · exact Bool.false_ne_true (hd.1.symm.trans (by rw [eq_of_beq hblank]; rfl))
  have hskip : ∀ more : List UInt8, (blanks ++ d :: more).dropWhile skip = blanks.dropWhile skip ++ d :: more := by
    intro more
    rw [List.dropWhile_append]
    split
    · next hnil => rw [List.isEmpty_iff.mp hnil, List.dropWhile_cons_of_neg hstop, List.nil_append]
    · rfl
  have hdrop : (unlines r.fromCseq ++ (r.blank ++ [10])).drop 4 =
      58 :: (blanks ++ d :: (ds ++ (trailing ++ 10 :: (unlines ls ++ (r.blank ++ [10]))))) := by
    rw [h, unlines_cons, List.append_assoc, List.drop_left' hlen]
    simp only [List.append_assoc, List.cons_append]
  have hread : scanInt (blanks.dropWhile skip ++
      ((d :: ds) ++ (trailing ++ 10 :: (unlines ls ++ (r.blank ++ [10]))))) = some (r.cseq : Int) := by
    rw [scanInt_digits (fun b hb => hblanks b (List.dropWhile_subset _ hb)) hne hdigits, hvalue]
    intro b hb
    cases trailing with
    | nil =>
      cases hb
      rfl
    | cons t trailing =>
      cases hb
      cases hdigit : isDigit b with
      | false => rfl
      | true =>
        have hspace := htrailing b List.mem_cons_self
        rw [(isDigit_plain hdigit).1] at hspace
        cases hspace
  rw [Request.announced, hdrop, itemValue]
  change atoi ((58 :: _).dropWhile skip) = _
  rw [List.dropWhile_cons_of_pos (by rfl), hskip]
  exact atoi_eq hread r.cseq_lt

/-! ## The response -/

theorem showInt_inj {v w : Int} (h : showInt v = showInt w) : v = w := by
  have hminus : ∀ (k : Nat) (rest : List UInt8), digitsText k ≠ 45 :: rest := by
    intro k rest heq
    have hmem : (45 : UInt8) ∈ digitsText k := heq ▸ List.mem_cons_self
    exact absurd (digitsText_isDigit hmem).1 (by decide)
  have hdigits : ∀ {a b : Nat}, digitsText a = digitsText b → a = b := by
    intro a b heq
    rw [← decimal_digitsText a, heq, decimal_digitsText]
  rw [showInt, showInt] at h
  split at h <;> split at h
  · have := hdigits (List.cons.inj h).2
    omega
  · exact absurd h.symm (hminus _ _)
  · exact absurd h (hminus _ _)
  · have := hdigits h
    omega

/-- Different numbers, different responses. -/
theorem response_inj {v w : Int} (h : response v = response w) : v = w := by
  rw [response, response, List.append_cancel_right_eq, List.append_cancel_left_eq] at h
  exact showInt_inj h

/-- An `int`. -/
def IsInt (v : Int) : Prop := -2147483648 ≤ v ∧ v ≤ 2147483647

theorem atoi_isInt (mem : List UInt8) : IsInt (atoi mem) := by
  have hpos : 0 < 4294967296 := by decide
  constructor
  · exact Int.le_bmod hpos
  · exact Int.bmod_le hpos

theorem length_showInt_le {v : Int} (h : IsInt v) : (showInt v).length ≤ 11 := by
  obtain ⟨hlow, hhigh⟩ := h
  have hdigits : ∀ k : Nat, k ≤ 2147483648 → (digitsText k).length ≤ 10 := by
    intro k hk
    exact length_digitsLoop_le (Nat.lt_of_le_of_lt hk (by decide))
  rw [showInt]
  split
  · exact Nat.succ_le_succ (hdigits _ (by omega))
  · exact Nat.le_succ_of_le (hdigits _ (by omega))

theorem formatLength_le : formatLength + 30 ≤ rwBuffSize := by decide +kernel

theorem length_response_le {v : Int} (h : IsInt v) : (response v).length ≤ formatLength + 30 := by
  have := length_showInt_le h
  rw [response, formatLength, List.length_append, List.length_append]
  omega

/-- A drained array gets room for what fits into it, if need be by a move. -/
theorem CacheArray.exists_room {a : CacheArray} {need : Nat} (hused : a.used = [])
    (hstart : a.start ≤ rwBuffSize) (hneed : need ≤ rwBuffSize) :
    ∃ out : CacheArray, out.used = [] ∧ out.start + need ≤ rwBuffSize ∧ ¬out.remainlen < need ∧
      (if a.remainlen < need then a.remainlenTran else some a) = some out := by
  by_cases hfull : a.remainlen < need
  · have hroom : ¬(CacheArray.mk 0 []).remainlen < need := Nat.not_lt.mpr hneed
    refine ⟨⟨0, []⟩, rfl, (Nat.zero_add need).symm ▸ hneed, hroom, ?_⟩
    rw [if_pos hfull, CacheArray.remainlenTran]
    split
    · next hzero => rw [← hzero, ← hused]
    · rw [hused, List.length_nil, if_neg (Nat.not_lt_zero _)]
  · refine ⟨a, hused, ?_, hfull, if_neg hfull⟩
    rw [CacheArray.remainlen, hused, List.length_nil] at hfull
    omega

theorem CacheArray.exists_uselenAdd {a : CacheArray} {data : List UInt8} (hused : a.used = [])
    (hfits : a.start + data.length ≤ rwBuffSize) :
    ∃ out : CacheArray, out.used = data ∧ out.start + out.used.length ≤ rwBuffSize ∧
      a.uselenAdd data = some out := by
  refine ⟨⟨a.start, data⟩, rfl, hfits, ?_⟩
  rw [CacheArray.uselenAdd, hused, List.nil_append, if_neg (Nat.not_lt.mpr hfits)]

/-- With the output drained, there is always room for a response. -/
theorem optionsHandle_eq {s : Session} (hout : s.outArray.used = []) (hstart : s.outArray.start ≤ rwBuffSize)
    (hcseq : IsInt s.cseq) :
    ∃ out : CacheArray, out.used = response s.cseq ∧ out.start + out.used.length ≤ rwBuffSize ∧
      optionsHandle s = some { s with outArray := out, appended := s.appended ++ [response s.cseq] } := by
  obtain ⟨room, hempty, hroom, hremain, hmoved⟩ := CacheArray.exists_room hout hstart formatLength_le
  have hlen := Nat.le_trans (Nat.add_le_add_left (length_response_le hcseq) room.start) hroom
  obtain ⟨out, hused, hfits, hadd⟩ := CacheArray.exists_uselenAdd hempty hlen
  refine ⟨out, hused, hfits, ?_⟩
  rw [optionsHandle, hmoved, Option.bind_some, if_neg hremain, hadd, Option.map_some]

/-! ## One read -/

/-- A head that is not complete changes nothing. -/
theorem rtspHandle_part {s : Session} (h : headEnd s.inArray.used = none) : rtspHandle s = some s := by
  rw [rtspHandle, h]

/-- A complete request is answered, and the bytes behind it stay. -/
theorem rtspHandle_request {s : Session} {r : Request} {behind : List UInt8}
    (hused : s.inArray.used = r.bytes ++ behind) (hout : s.outArray.used = [])
    (hstart : s.outArray.start ≤ rwBuffSize) :
    ∃ out : CacheArray, out.start + out.used.length ≤ rwBuffSize ∧
      rtspHandle s = some
        ⟨⟨s.inArray.start + r.bytes.length, behind⟩, out, r.announced, s.appended ++ [response r.announced]⟩ := by
  have hseven : (text "OPTIONS").length = 7 := by decide
  have hbytes : r.bytes = text "OPTIONS" ++ 32 :: (r.url ++ 32 :: (r.version ++ 10 ::
      (unlines r.lines ++ (r.blank ++ [10])))) := by
    have htext : text "OPTIONS " = text "OPTIONS" ++ [32] := by decide
    rw [Request.bytes, optionsBytes, htext, List.append_assoc, List.singleton_append]
  have hlen := congrArg List.length hbytes
  simp only [List.length_append, List.length_cons, hseven] at hlen
  have htake : s.inArray.used.take r.bytes.length = r.bytes := by rw [hused, List.take_left]
  have hend : headEnd s.inArray.used = some r.bytes.length := hused ▸ r.headEnd_bytes behind
  have hmethod : ((s.inArray.used.take r.bytes.length).take 29).takeWhile (· != 32) = text "OPTIONS" := by
    have hall : (text "OPTIONS").all (· != 32) = true := by decide
    have hplain := List.all_eq_true.mp hall
    rw [htake, hbytes, List.take_append, hseven, List.take_of_length_le (by rw [hseven]; decide),
      List.take_succ_cons, List.takeWhile_append_of_pos hplain, List.takeWhile_cons_of_neg (by decide),
      List.append_nil]
  have hrest : s.inArray.used.drop 8 = r.url ++ 32 :: (r.version ++ 10 ::
      (unlines r.lines ++ (r.blank ++ 10 :: behind))) := by
    rw [hused, Request.bytes, optionsBytes, List.append_assoc, List.drop_left' length_text_options]
    simp only [List.append_assoc, List.cons_append, List.nil_append]
  have hurl : (s.inArray.used.drop 8).takeWhile (· != 32) = r.url := by
    have hplain : ∀ b ∈ r.url, (b != 32) = true := by
      intro b hb
      rw [bne_iff_ne]
      rintro rfl
      exact r.url_plain.1 hb
    rw [hrest, List.takeWhile_append_of_pos hplain, List.takeWhile_cons_of_neg (by decide), List.append_nil]
  have hspace : ¬(s.inArray.used.drop 8).length ≤ r.url.length := by
    rw [hrest, List.length_append, List.length_cons]
    omega
  have hline : lineLength r.bytes = r.firstLine.length + 1 := by
    rw [r.bytes_eq, lineLength_line r.ten_notMem_firstLine]
  have hinLine : 8 + r.url.length < r.firstLine.length + 1 := by
    rw [Request.firstLine, List.length_append, length_text_options, List.length_append]
    omega
  -- the NUL that is written behind the URL is in the line that is passed over
  have hnext : ((s.inArray.used.set (8 + r.url.length) 0).take r.bytes.length).drop
      (lineLength (s.inArray.used.take r.bytes.length)) = unlines r.lines ++ (r.blank ++ [10]) := by
    rw [List.take_set, htake, hline, List.drop_set, if_pos hinLine, r.bytes_eq, drop_line]
  have hbehind : (s.inArray.used.set (8 + r.url.length) 0).drop r.bytes.length = behind := by
    rw [List.drop_set, if_pos (by omega), hused, List.drop_left]
  have hoptions : (cstr (text "OPTIONS")).map toLower = text "options" := by decide
  obtain ⟨out, -, hfits, hhandle⟩ := @optionsHandle_eq
    ⟨⟨s.inArray.start, s.inArray.used.set (8 + r.url.length) 0⟩, s.outArray, r.announced, s.appended⟩
    hout hstart (atoi_isInt _)
  refine ⟨out, hfits, ?_⟩
  have hlong : ¬r.bytes.length ≤ 7 := by omega
  rw [rtspHandle, hend]
  simp only [hmethod, hseven, if_neg hlong, Nat.reduceAdd, hurl, if_neg hspace, hnext, hbehind, r.getValueInt_eq,
    if_pos hoptions, hhandle, Option.map_some, CacheArray.usedlenSub]

/-- Between two reads. There is room, or something before the bytes that can be given up. -/
structure Inv (s : Session) : Prop where
  inside : s.inArray.start + s.inArray.used.length ≤ rwBuffSize
  notFull : s.inArray.start = 0 → s.inArray.used.length < rwBuffSize
  drained : s.outArray.used = []
  outInside : s.outArray.start ≤ rwBuffSize

theorem inv_init : Inv Session.init := ⟨Nat.zero_le _, fun _ => by decide, rfl, Nat.zero_le _⟩

/-- The lengths of the requests. -/
def sizes (rs : List Request) : List Nat := rs.map fun r => r.bytes.length

/-- The responses that the code makes for requests. -/
def responses (rs : List Request) : List (List UInt8) := rs.map fun r => response r.announced

theorem makeRoom_eq {s : Session} {c : List UInt8} (hinv : Inv s) (hmove : Movable s c) :
    ∃ start, s.inArray.makeRoom = some ⟨start, s.inArray.used⟩ ∧
      start + s.inArray.used.length < rwBuffSize := by
  have hin := hinv.inside
  rw [CacheArray.makeRoom]
  by_cases hfull : s.inArray.remainlen = 0
  · have hsum : s.inArray.start + s.inArray.used.length = rwBuffSize := by
      rw [CacheArray.remainlen] at hfull
      omega
    -- a full buffer holds more than one request, so something before it was answered
    have hmoved : s.inArray.start ≠ 0 := by
      intro hzero
      have := hinv.notFull hzero
      omega
    have hbefore := hmove hfull
    have hroom : ¬(CacheArray.mk 0 s.inArray.used).remainlen = 0 := by
      simp only [CacheArray.remainlen]
      omega
    refine ⟨0, ?_, by omega⟩
    rw [if_pos hfull, CacheArray.remainlenTran, if_neg hmoved, if_neg (Nat.not_lt.mpr hbefore), Option.bind_some,
      if_neg hroom]
  · refine ⟨s.inArray.start, if_neg hfull, ?_⟩
    rw [CacheArray.remainlen] at hfull
    omega

/-- A read comes down to `rtsp_handle` on the bytes that are there then. -/
theorem step_of_handle {s : Session} {c : List UInt8} (hinv : Inv s) (hread : Readable s c) (hmove : Movable s c) :
    ∃ start, start + (s.inArray.used ++ c).length ≤ rwBuffSize ∧
      ∀ t, rtspHandle { s with inArray := ⟨start, s.inArray.used ++ c⟩ } = some t →
        step s c = some { t with outArray := t.outArray.usedlenSub t.outArray.used.length } := by
  obtain ⟨start, hroom, hspace⟩ := makeRoom_eq hinv hmove
  obtain ⟨hsome, hshort⟩ := hread
  have hlen : start + (s.inArray.used ++ c).length ≤ rwBuffSize := by
    have hfits := hshort _ hroom
    simp only [CacheArray.remainlen] at hfits
    rw [List.length_append]
    omega
  refine ⟨start, hlen, fun t ht => ?_⟩
  have hadd : (CacheArray.mk start s.inArray.used).uselenAdd c = some ⟨start, s.inArray.used ++ c⟩ :=
    if_neg (Nat.not_lt.mpr hlen)
  rw [step, hroom, Option.bind_some, if_neg hsome, hadd, Option.bind_some, ht, Option.map_some]

/-- The first request is complete: it is answered, and the bytes behind it stay. -/
theorem step_answer {s : Session} {r : Request} {c behind : List UInt8} (hinv : Inv s) (hread : Readable s c)
    (hmove : Movable s c) (hused : s.inArray.used ++ c = r.bytes ++ behind) :
    ∃ t, step s c = some t ∧ Inv t ∧ t.appended = s.appended ++ [response r.announced] ∧
      t.inArray.used = behind := by
  obtain ⟨start, hfits, hstep⟩ := step_of_handle hinv hread hmove
  obtain ⟨out, hout, hhandle⟩ := @rtspHandle_request { s with inArray := ⟨start, s.inArray.used ++ c⟩ } r behind
    hused hinv.drained hinv.outInside
  have hpos := r.length_bytes_pos
  rw [hused, List.length_append] at hfits
  refine ⟨_, hstep _ hhandle, ⟨?_, ?_, ?_, hout⟩, rfl, rfl⟩
  · change start + r.bytes.length + behind.length ≤ rwBuffSize
    omega
  · change start + r.bytes.length = 0 → behind.length < rwBuffSize
    omega
  · exact List.drop_eq_nil_of_le (Nat.le_refl _)

/-- It is not complete: nothing happens. -/
theorem step_wait {s : Session} {r : Request} {c more : List UInt8} (hinv : Inv s) (hread : Readable s c)
    (hmove : Movable s c) (hpart : r.bytes = s.inArray.used ++ c ++ more) (hmore : more ≠ []) :
    ∃ t, step s c = some t ∧ Inv t ∧ t.appended = s.appended ∧ t.inArray.used = s.inArray.used ++ c := by
  obtain ⟨start, hfits, hstep⟩ := step_of_handle hinv hread hmove
  have hhandle : rtspHandle { s with inArray := ⟨start, s.inArray.used ++ c⟩ } = some _ :=
    rtspHandle_part (r.headEnd_part hpart hmore)
  have hshort : (s.inArray.used ++ c).length < rwBuffSize := by
    have hlen := congrArg List.length hpart
    rw [List.length_append] at hlen
    have hwhole : r.bytes.length < rwBuffSize := r.fits
    omega
  refine ⟨_, hstep _ hhandle, ⟨hfits, fun _ => hshort, List.drop_eq_nil_of_le (Nat.le_refl _), ?_⟩, rfl, rfl⟩
  change s.outArray.start + s.outArray.used.length ≤ rwBuffSize
  rw [hinv.drained]
  exact hinv.outInside

/-- A read when the requests `p` are not answered yet. -/
theorem step_pending {s : Session} {p : List Request} {c future : List UInt8} (hinv : Inv s)
    (hsent : s.inArray.used ++ (c ++ future) = p.flatMap Request.bytes) (hread : Readable s c)
    (hmove : Movable s c) :
    ∃ t done q, step s c = some t ∧ Inv t ∧ p = done ++ q ∧ t.appended = s.appended ++ responses done ∧
      t.inArray.used ++ future = q.flatMap Request.bytes ∧
      (sizes q, t.inArray.used.length) = takeOne (sizes p, s.inArray.used.length) c.length := by
  -- the read completes the first request, with or without bytes of the next one
  have hanswer : ∀ (r : Request) (p' : List Request) (behind : List UInt8), p = r :: p' →
      s.inArray.used ++ c = r.bytes ++ behind → p'.flatMap Request.bytes = behind ++ future →
      ∃ t done q, step s c = some t ∧ Inv t ∧ p = done ++ q ∧ t.appended = s.appended ++ responses done ∧
        t.inArray.used ++ future = q.flatMap Request.bytes ∧
        (sizes q, t.inArray.used.length) = takeOne (sizes p, s.inArray.used.length) c.length := by
    intro r p' behind hp hused hrest
    obtain ⟨t, hstep, ht, happended, hbehind⟩ := step_answer hinv hread hmove hused
    have hlen := congrArg List.length hused
    rw [List.length_append, List.length_append] at hlen
    refine ⟨t, [r], p', hstep, ht, hp, happended, by rw [hbehind, hrest], ?_⟩
    have hsizes : sizes p = r.bytes.length :: sizes p' := by rw [hp, sizes, List.map_cons, sizes]
    rw [hsizes, takeOne_of_le (by omega), hbehind, hlen, Nat.add_sub_cancel_left]
  cases p with
  | nil =>
    exfalso
    rw [List.flatMap_nil, List.append_eq_nil_iff, List.append_eq_nil_iff] at hsent
    exact hread.1 hsent.2.1
  | cons r p =>
    rw [List.flatMap_cons, ← List.append_assoc, List.append_eq_append_iff] at hsent
    rcases hsent with ⟨more, hpart, hfuture⟩ | ⟨behind, hused, hrest⟩
    · by_cases hmore : more = []
      · -- the read ends where the request does
        rw [hmore, List.append_nil] at hpart
        rw [hmore, List.nil_append] at hfuture
        exact hanswer r p [] rfl (by rw [hpart, List.append_nil]) (by rw [hfuture, List.nil_append])
      · obtain ⟨t, hstep, ht, happended, hused⟩ := step_wait hinv hread hmove hpart hmore
        have hlen := congrArg List.length hpart
        rw [List.length_append, List.length_append] at hlen
        have hmorePos := List.length_pos_iff.mpr hmore
        refine ⟨t, [], r :: p, hstep, ht, rfl, ?_, ?_, ?_⟩
        · rw [happended]
          exact (List.append_nil _).symm
        · rw [List.flatMap_cons, hused, hpart, hfuture, List.append_assoc _ more]
        · rw [sizes, List.map_cons, takeOne_of_lt (by omega), hused, List.length_append]
    · exact hanswer r p behind rfl hused hrest

/-! ## All reads -/

/-- What the requests `p` come to: the first of them are answered, and the others are still in the buffer. -/
theorem run_pending {s : Session} {p : List Request} {chunks : List (List UInt8)} (hinv : Inv s)
    (hsent : s.inArray.used ++ chunks.flatten = p.flatMap Request.bytes) (hread : Meets step Readable s chunks)
    (hmove : Meets step Movable s chunks) :
    ∃ t done q, run step s chunks = some t ∧ p = done ++ q ∧ t.appended = s.appended ++ responses done ∧
      t.inArray.used = q.flatMap Request.bytes ∧
      sizes q = ((chunks.map List.length).foldl takeOne (sizes p, s.inArray.used.length)).1 := by
  -- on the reads, whatever requests are pending before them
  induction chunks generalizing s p with
  | nil =>
    rw [List.flatten_nil, List.append_nil] at hsent
    exact ⟨s, [], p, rfl, rfl, (List.append_nil _).symm, hsent, rfl⟩
  | cons c chunks ih =>
    rw [List.flatten_cons] at hsent
    obtain ⟨s', done, q, hstep, hinv', rfl, happended, hsent', hsizes⟩ :=
      step_pending hinv hsent hread.head hmove.head
    obtain ⟨t, done', q', hrun, rfl, happended', hused, hsizes'⟩ :=
      ih hinv' hsent' (hread.tail hstep) (hmove.tail hstep)
    refine ⟨t, done ++ done', q', run_cons_eq_some.mpr ⟨s', hstep, hrun⟩, (List.append_assoc _ _ _).symm, ?_, hused,
      ?_⟩
    · rw [happended', happended, responses, responses, responses, List.map_append, List.append_assoc]
    · rw [hsizes', hsizes, List.map_cons, List.foldl_cons]

/-- Where the bytes cannot be moved there is no step. -/
theorem movable_of_step {s t : Session} {c : List UInt8} (h : step s c = some t) : Movable s c := by
  intro hfull
  obtain ⟨a, hroom, -⟩ := Option.bind_eq_some_iff.mp h
  rw [CacheArray.makeRoom, if_pos hfull, CacheArray.remainlenTran] at hroom
  by_cases hzero : s.inArray.start = 0
  · rw [if_pos hzero, Option.bind_some, if_pos hfull] at hroom
    cases hroom
  · by_cases hover : s.inArray.start < s.inArray.used.length
    · rw [if_neg hzero, if_pos hover] at hroom
      cases hroom
    · exact Nat.not_lt.mp hover

theorem responses_eq_iff (rs : List Request) :
    responses rs = rs.map (fun r => response r.cseq) ↔ ∀ r ∈ rs, r.announced = r.cseq := by
  rw [responses, List.map_inj_left]
  exact forall₂_congr fun r _ => ⟨response_inj, congrArg response⟩

theorem eq_nil_of_bytes {q : List Request} (h : q.flatMap Request.bytes = []) : q = [] := by
  cases q with
  | nil => rfl
  | cons r q =>
    rw [List.flatMap_cons, List.append_eq_nil_iff] at h
    exact absurd h.1 r.bytes_ne_nil

/-- **The requests of a client are answered, each once, in order and with its number, and nothing is left in the
buffer**, if and only if never more requests end in the reads from one on than these are, the bytes can be moved
whenever the buffer is used up, and no other header begins like the one with the number before it. -/
theorem answers_iff (rs : List Request) (chunks : List (List UInt8))
    (hsent : chunks.flatten = rs.flatMap Request.bytes) (hread : Meets step Readable Session.init chunks) :
    (∃ s, run step Session.init chunks = some s ∧ s.appended = rs.map (fun r => response r.cseq) ∧
        s.inArray.used = []) ↔
      (∀ as bs, chunks = as ++ bs → endsAfter (sizes rs) as.flatten.length ≤ bs.length) ∧
        Meets step Movable Session.init chunks ∧ ∀ r ∈ rs, r.announced = r.cseq := by
  have hpos : ∀ m ∈ sizes rs, 0 < m := by
    intro m hm
    obtain ⟨r, -, rfl⟩ := List.mem_map.mp hm
    exact r.length_bytes_pos
  constructor
  · rintro ⟨s, hrun, happended, hused⟩
    have hmove : Meets step Movable Session.init chunks := .of_run (fun _ _ _ => movable_of_step) hrun
    -- nothing in the buffer, so no request is pending
    obtain ⟨t, done, q, hrun', rfl, happended', hused', hsizes⟩ := run_pending inv_init hsent hread hmove
    cases hrun.symm.trans hrun'
    have hq : q = [] := eq_nil_of_bytes (hused'.symm.trans hused)
    subst hq
    refine ⟨(takeOne_all_iff_of_chunks hpos chunks).mp hsizes.symm, hmove, ?_⟩
    rw [← responses_eq_iff, ← happended, happended', List.append_nil]
    rfl
  · rintro ⟨hends, hmove, hseq⟩
    obtain ⟨t, done, q, hrun, rfl, happended, hused, hsizes⟩ := run_pending inv_init hsent hread hmove
    have hall : sizes q = [] := hsizes.trans ((takeOne_all_iff_of_chunks hpos chunks).mpr hends)
    have hq : q = [] := List.map_eq_nil_iff.mp hall
    subst hq
    refine ⟨t, hrun, ?_, hused⟩
    rw [← (responses_eq_iff _).mpr hseq, happended, List.append_nil]
    rfl

/-- `OPTIONS * RTSP/1.0` with the number 1. -/
def firstRequest : Request where
  url := [42]
  version := text "RTSP/1.0\r"
  lines := [text "CSeq: 1\r"]
  blank := [13]
  cseq := 1
  url_plain := by decide
  version_plain := by decide
  lines_plain := by decide
  blank_plain := .inr rfl
  cseq_line := ⟨text "CSeq: 1\r", List.mem_singleton.mpr rfl,
    ⟨text "CSeq", [32], [49], [13], by decide, by decide, List.forall_mem_singleton.mpr rfl, List.cons_ne_nil _ _,
      List.forall_mem_singleton.mpr rfl, rfl, List.forall_mem_singleton.mpr rfl⟩⟩
  cseq_lt := by decide
  fits := by decide

/-- The first read may bring as much as the buffer holds. -/
theorem readable_init {c : List UInt8} (hne : c ≠ []) (hfits : c.length ≤ rwBuffSize) :
    Readable Session.init c := by
  refine ⟨hne, fun a ha => ?_⟩
  obtain rfl : CacheArray.init = a := Option.some.inj ha
  exact hfits

theorem answers_iff_first :
    (∃ s, run step Session.init [firstRequest.bytes] = some s ∧
        s.appended = [firstRequest].map (fun r => response r.cseq) ∧ s.inArray.used = []) ↔
      (∀ as bs, [firstRequest.bytes] = as ++ bs → endsAfter (sizes [firstRequest]) as.flatten.length ≤ bs.length) ∧
        Meets step Movable Session.init [firstRequest.bytes] ∧ ∀ r ∈ [firstRequest], r.announced = r.cseq := by
  apply answers_iff
  · rw [List.flatten_singleton, List.flatMap_singleton]
  · exact .single (readable_init firstRequest.bytes_ne_nil (Nat.le_of_lt firstRequest.fits))

/-- Two requests in one read: the second one is left in the buffer. -/
theorem second_not_answered :
    ¬∀ (rs : List Request) (chunks : List (List UInt8)), chunks.flatten = rs.flatMap Request.bytes →
      Meets step Readable Session.init chunks →
        ∃ s, run step Session.init chunks = some s ∧ s.appended = rs.map (fun r => response r.cseq) ∧
          s.inArray.used = [] := by
  intro hall
  have hshort : (firstRequest.bytes ++ firstRequest.bytes).length ≤ rwBuffSize := by decide
  have hread := readable_init (List.append_ne_nil_of_left_ne_nil firstRequest.bytes_ne_nil _) hshort
  obtain ⟨s, hrun, -, hused⟩ := hall [firstRequest, firstRequest] [firstRequest.bytes ++ firstRequest.bytes]
    (by rw [List.flatten_singleton, List.flatMap_cons, List.flatMap_singleton])
    (.single hread)
  obtain ⟨t, hstep, -, -, hbehind⟩ := step_answer inv_init hread (fun _ => Nat.zero_le _)
    (List.nil_append (firstRequest.bytes ++ firstRequest.bytes))
  obtain ⟨s', hs', hend⟩ := run_cons_eq_some.mp hrun
  cases hstep.symm.trans hs'
  cases hend
  exact firstRequest.bytes_ne_nil (hbehind.symm.trans hused)

end ProgrammingPath.RtspService
