import ProgrammingPath.Forward.Message
import ProgrammingPath.Service.Proxy
import ProgrammingPath.Service.RtspService

/-!
# The lines of a response head

A head is lines and a blank line. `http_heard_getlength` finds its end whatever is behind it
(`httpHeardGetlength_bytes`), `_loop_http_head_response_in_out` reads the number in its `Content-Length` line
(`responseContentLength_eq`), and with another number in that line it is a head again (`ResponseHead.withLength`).
-/

namespace ProgrammingPath.Proxy

open ProgrammingPath.Lib
open ProgrammingPath.Forward (contentLengthKey decimal_digitsText length_le_unlines length_unlines_cons newlineAt
  newlineAt_line startsCI_line toLower_contentLengthKey unlines unlines_cons unlines_nil)
open ProgrammingPath.Rtsp (decimal isDigit isDigit_facts isSpace scanInt scanInt_digits)
open ProgrammingPath.RtspService (atoi atoi_eq)

/-! ## Heads -/

/-- The lines of a head, without their line feeds, and the blank line that ends it. -/
structure ResponseHead where
  lines : List (List UInt8)
  blank : List UInt8
  lines_ne : lines ≠ []
  one_line : ∀ l ∈ lines, 10 ∉ l
  not_blank : ∀ l ∈ lines.tail, l ≠ [] ∧ l ≠ [13]
  blank_eq : blank = [10] ∨ blank = [13, 10]

def ResponseHead.bytes (h : ResponseHead) : List UInt8 := unlines h.lines ++ h.blank

/-- A blank or what may end a line. -/
def isBlank (b : UInt8) : Bool := b == 32 || b == 9 || b == 13

/-- The number in a header: digits, with nothing but blanks around them. -/
def fieldValue (v : List UInt8) : Option Nat :=
  let digits := (v.dropWhile isBlank).takeWhile isDigit
  if digits = [] ∨ ¬((v.dropWhile isBlank).dropWhile isDigit).all isBlank then none else some (decimal digits)

/-- What a line says about the length of the body. -/
def contentLengthOf (l : List UInt8) : Option (Option Nat) :=
  if startsCI contentLengthKey l then some (fieldValue (l.drop 15)) else none

/-- The lengths that a head announces, one for each of its `Content-Length` lines. -/
def contentLengths (head : List UInt8) : List (Option Nat) := (head.splitOn 10).filterMap contentLengthOf

/-! ## What the proxy reads -/

/-- `atoi` of every line that begins with `Content-Length:`, the last one counts; `left` is how far it is to `ptr_end`. -/
def contentLengthLoop : Nat → Nat → List UInt8 → Int → Int
  | 0, _, _, contentLength => contentLength
  | fuel + 1, left, ptr, contentLength =>
    if left = 0 then contentLength
    else
      let contentLength := if startsCI contentLengthKey ptr then atoi (ptr.drop 15) else contentLength
      match newlineAt ptr with
      | none => contentLength
      | some k => contentLengthLoop fuel (left - (k + 1)) (ptr.drop (k + 1)) contentLength

/-- What `_loop_http_head_response_in_out` finds out about the body. -/
def responseContentLength (mem : List UInt8) (httpheadlen : Nat) : Int :=
  contentLengthLoop httpheadlen (httpheadlen - 1) mem 0

/-! ## Where a head ends -/

section Ends

variable {l rest : List UInt8}

/-- No blank line begins in a line that has one behind it which is not blank. -/
theorem headLengthLoop_line (hl : 10 ∉ l) (hlf : ¬[10] <+: rest) (hcrlf : ¬[13, 10] <+: rest) (pos : Nat) :
    headLengthLoop pos (l ++ 10 :: rest) = headLengthLoop (pos + l.length + 1) rest := by
  induction l generalizing pos with
  | nil => simp [headLengthLoop, List.cons_prefix_cons, hlf, hcrlf]
  | cons b l ih =>
    rw [List.mem_cons, not_or] at hl
    have hafter : ¬[10, 10] <+: l ++ 10 :: rest ∧ ¬[10, 13, 10] <+: l ++ 10 :: rest := by
      cases l with
      | nil => simp [List.cons_prefix_cons, hlf, hcrlf]
      | cons c l =>
        have hc : (10 : UInt8) ≠ c := fun h => hl.2 (h ▸ List.mem_cons_self)
        simp [List.cons_prefix_cons, hc]
    rw [List.cons_append, headLengthLoop]
    simp only [List.cons_prefix_cons, hl.1, hafter.1, hafter.2, false_and, and_false, if_false]
    rw [ih hl.2, List.length_cons]
    congr 1
    omega

/-- Behind a line that is followed by a blank one the head ends. -/
theorem headLengthLoop_blank {blank : List UInt8} (hl : 10 ∉ l) (hblank : blank = [10] ∨ blank = [13, 10])
    (pos : Nat) :
    headLengthLoop pos (l ++ 10 :: (blank ++ rest)) = some (pos + l.length + 1 + blank.length) := by
  induction l generalizing pos with
  | nil => rcases hblank with rfl | rfl <;> simp [headLengthLoop, List.cons_prefix_cons]
  | cons b l ih =>
    rw [List.mem_cons, not_or] at hl
    rw [List.cons_append, headLengthLoop, ih hl.2]
    cases l with
    | nil =>
      -- a carriage return before the line feed belongs to the pattern
      rcases hblank with rfl | rfl <;> by_cases hb : 13 = b <;> simp [List.cons_prefix_cons, hl.1, hb]
    | cons c l =>
      have hc : (10 : UInt8) ≠ c := fun h => hl.2 (h ▸ List.mem_cons_self)
      simp only [List.cons_append, List.cons_prefix_cons, hl.1, hc, false_and, and_false, if_false,
        List.length_cons]
      congr 1
      omega

/-- A head is not found behind a blank line. -/
theorem headLengthLoop_le {blank : List UInt8} (hblank : blank = [10] ∨ blank = [13, 10])
    (x rest : List UInt8) (pos : Nat) :
    ∃ n, headLengthLoop pos (x ++ 10 :: (blank ++ rest)) = some n ∧ n ≤ pos + x.length + 1 + blank.length := by
  induction x generalizing pos with
  | nil =>
    have hnil : (10 : UInt8) ∉ ([] : List UInt8) := List.not_mem_nil
    exact ⟨_, headLengthLoop_blank hnil hblank pos, Nat.le_refl _⟩
  | cons b x ih =>
    obtain ⟨n, hn, hle⟩ := ih (pos + 1)
    have hblankLength : 1 ≤ blank.length := by rcases hblank with rfl | rfl <;> decide
    rw [List.cons_append, headLengthLoop, List.length_cons]
    split
    · exact ⟨_, rfl, by omega⟩
    · split
      · exact ⟨_, rfl, by omega⟩
      · split
        · exact ⟨_, rfl, by omega⟩
        · split
          · next hpre =>
            refine ⟨_, rfl, ?_⟩
            -- behind one byte the longest pattern needs the longer blank line
            cases x with
            | nil =>
              rcases hblank with rfl | rfl
              · simp [List.cons_prefix_cons] at hpre
              · exact Nat.le_refl _
            | cons c x =>
              rw [List.length_cons]
              omega
          · exact ⟨n, hn, by omega⟩

end Ends

namespace ResponseHead

variable (h : ResponseHead)

/-- A line that is not blank does not begin like a blank one. -/
theorem not_prefix_line {l : List UInt8} (hl : 10 ∉ l) (hne : l ≠ [] ∧ l ≠ [13]) (rest : List UInt8) :
    ¬[10] <+: l ++ 10 :: rest ∧ ¬[13, 10] <+: l ++ 10 :: rest := by
  obtain ⟨b, l, rfl⟩ := List.exists_cons_of_ne_nil hne.1
  rw [List.mem_cons, not_or] at hl
  refine ⟨by simp [List.cons_prefix_cons, hl.1], ?_⟩
  cases l with
  | nil =>
    have hb : (13 : UInt8) ≠ b := fun heq => hne.2 (heq ▸ rfl)
    simp [List.cons_prefix_cons, hb]
  | cons c l =>
    have hc : (10 : UInt8) ≠ c := fun heq => hl.2 (heq ▸ List.mem_cons_self)
    simp [List.cons_prefix_cons, hc]

theorem headLengthLoop_lines {l : List UInt8} {ls : List (List UInt8)} {blank : List UInt8}
    (hline : ∀ m ∈ l :: ls, 10 ∉ m) (hne : ∀ m ∈ ls, m ≠ [] ∧ m ≠ [13])
    (hblank : blank = [10] ∨ blank = [13, 10]) (pos : Nat) (rest : List UInt8) :
    headLengthLoop pos (unlines (l :: ls) ++ (blank ++ rest)) =
      some (pos + (unlines (l :: ls)).length + blank.length) := by
  induction ls generalizing l pos with
  | nil =>
    have hlen := length_unlines_cons l []
    rw [unlines_nil, List.length_nil] at hlen
    rw [unlines_cons, unlines_nil, List.nil_append]
    apply (headLengthLoop_blank (hline l List.mem_cons_self) hblank pos).trans
    apply congrArg some
    omega
  | cons m ls ih =>
    have hm := not_prefix_line (hline m (List.mem_cons_of_mem _ List.mem_cons_self)) (hne m List.mem_cons_self)
      (unlines ls ++ (blank ++ rest))
    have hlen := length_unlines_cons l (m :: ls)
    rw [← unlines_cons] at hm
    rw [unlines_cons, headLengthLoop_line (hline l List.mem_cons_self) hm.1 hm.2,
      ih (fun x hx => hline x (List.mem_cons_of_mem _ hx)) fun x hx => hne x (List.mem_cons_of_mem _ hx)]
    apply congrArg some
    omega

/-- **The head ends at its blank line**, whatever is behind it. -/
theorem httpHeardGetlength_bytes (rest : List UInt8) :
    httpHeardGetlength (h.bytes ++ rest) = some h.bytes.length := by
  obtain ⟨l, ls, hls⟩ := List.exists_cons_of_ne_nil h.lines_ne
  have hline := h.one_line
  have hne := h.not_blank
  rw [hls] at hline hne
  rw [httpHeardGetlength, bytes, List.append_assoc, hls, headLengthLoop_lines hline hne h.blank_eq,
    List.length_append, Nat.zero_add]

theorem take_bytes (rest : List UInt8) : (h.bytes ++ rest).take h.bytes.length = h.bytes := List.take_left

/-- With nothing behind it, too. -/
theorem isHead_bytes : IsHead h.bytes := by
  have hlength := h.httpHeardGetlength_bytes []
  have hhead := (httpHeardGetlength_eq hlength).2
  rwa [h.take_bytes] at hhead

/-- What is before a NUL is not a head of its own. -/
theorem not_isHead_of_nul {p more : List UInt8} (hp : h.bytes = p ++ 0 :: more) : ¬IsHead p := by
  rintro ⟨x, blank, rfl, hblank⟩
  have hlength := h.httpHeardGetlength_bytes []
  obtain ⟨n, hn, hle⟩ := headLengthLoop_le hblank x (0 :: more) 0
  rw [List.append_nil, httpHeardGetlength, hp, List.append_assoc, List.cons_append, hn, Option.some.injEq] at hlength
  rw [hlength, List.length_append, List.length_cons, List.length_append, List.length_cons] at hle
  omega

/-! ## The lengths it announces -/

theorem splitOn_unlines {ls : List (List UInt8)} (hline : ∀ l ∈ ls, 10 ∉ l) (rest : List UInt8) :
    (unlines ls ++ rest).splitOn 10 = ls ++ rest.splitOn 10 := by
  induction ls with
  | nil => rfl
  | cons l ls ih =>
    rw [unlines_cons, List.splitOn_append_cons_self_of_not_mem (hline l List.mem_cons_self),
      ih fun m hm => hline m (List.mem_cons_of_mem _ hm), List.cons_append]

theorem contentLengths_bytes : contentLengths h.bytes = h.lines.filterMap contentLengthOf := by
  have hblank : (h.blank.splitOn 10).filterMap contentLengthOf = [] := by
    rcases h.blank_eq with hb | hb <;> rw [hb] <;> decide +kernel
  rw [contentLengths, bytes, splitOn_unlines h.one_line, List.filterMap_append, hblank, List.append_nil]

/-! ## Another length in its place -/

/-- The line that `snprintf` writes, without its line feed. -/
def lengthLine (xmllength : Nat) (l : List UInt8) : List UInt8 :=
  if startsCI contentLengthKey l then text "Content-Length: " ++ digitsText xmllength ++ [13] else l

theorem not_mem_digitsText {n : Nat} {b : UInt8} (hb : b < 48 ∨ 57 < b) : b ∉ digitsText n := by
  intro hmem
  have hdigit := digitsText_isDigit hmem
  rcases hb with hb | hb
  · exact absurd hdigit.1 (UInt8.not_le.mpr hb)
  · exact absurd hdigit.2 (UInt8.not_le.mpr hb)

theorem lengthLine_one_line {xmllength : Nat} {l : List UInt8} (hl : 10 ∉ l) : 10 ∉ lengthLine xmllength l := by
  rw [lengthLine]
  split
  · have htext : (10 : UInt8) ∉ text "Content-Length: " := by decide
    simp only [List.mem_append, not_or]
    exact ⟨⟨htext, not_mem_digitsText (.inl (by decide))⟩, by decide⟩
  · exact hl

theorem lengthLine_not_blank {xmllength : Nat} {l : List UInt8} (hl : l ≠ [] ∧ l ≠ [13]) :
    lengthLine xmllength l ≠ [] ∧ lengthLine xmllength l ≠ [13] := by
  rw [lengthLine]
  split
  · have hlong : 1 < (text "Content-Length: " ++ digitsText xmllength ++ [13]).length := by
      have htext : (text "Content-Length: ").length = 16 := by decide
      rw [List.length_append, List.length_append, htext]
      omega
    constructor <;> intro heq <;> rw [heq] at hlong <;> exact absurd hlong (by decide)
  · exact hl

/-- The head with this length in its `Content-Length` lines. -/
def withLength (xmllength : Nat) : ResponseHead where
  lines := h.lines.map (lengthLine xmllength)
  blank := h.blank
  lines_ne := fun hnil => h.lines_ne (List.map_eq_nil_iff.mp hnil)
  one_line := by
    intro l hl
    obtain ⟨m, hm, rfl⟩ := List.mem_map.mp hl
    exact lengthLine_one_line (h.one_line m hm)
  not_blank := by
    intro l hl
    rw [← List.map_tail] at hl
    obtain ⟨m, hm, rfl⟩ := List.mem_map.mp hl
    exact lengthLine_not_blank (h.not_blank m hm)
  blank_eq := h.blank_eq

/-- What `%d` prints is the number in the header. -/
theorem fieldValue_digitsText (n : Nat) : fieldValue (32 :: digitsText n ++ [13]) = some n := by
  have hdigit : ∀ b ∈ digitsText n, isDigit b = true := by
    intro b hb
    have hbounds := digitsText_isDigit hb
    simp [isDigit, hbounds.1, hbounds.2]
  have hdrop : (32 :: digitsText n ++ [13]).dropWhile isBlank = digitsText n ++ [13] := by
    obtain ⟨d, ds, hds⟩ := List.exists_cons_of_ne_nil (digitsText_ne_nil n)
    have hplain : isBlank d = false := by
      have hmem : d ∈ digitsText n := hds ▸ List.mem_cons_self
      have hne : ∀ b : UInt8, b < 48 ∨ 57 < b → (d == b) = false := by
        intro b hb
        rw [beq_eq_false_iff_ne]
        rintro rfl
        exact not_mem_digitsText hb hmem
      rw [isBlank, hne 32 (.inl (by decide)), hne 9 (.inl (by decide)), hne 13 (.inl (by decide))]
      rfl
    rw [List.cons_append, List.dropWhile_cons_of_pos (by decide), hds, List.cons_append,
      List.dropWhile_cons_of_neg (by rw [hplain]; decide)]
  have htake : (digitsText n ++ [13]).takeWhile isDigit = digitsText n := by
    rw [List.takeWhile_append_of_pos hdigit, List.takeWhile_cons_of_neg (by decide), List.append_nil]
  have hrest : (digitsText n ++ [13]).dropWhile isDigit = [13] := by
    rw [List.dropWhile_append_of_pos hdigit, List.dropWhile_cons_of_neg (by decide)]
  have hblank : ([13] : List UInt8).all isBlank = true := by decide
  rw [fieldValue, hdrop, htake, hrest, if_neg (by simp [digitsText_ne_nil, hblank]), decimal_digitsText]

theorem contentLengthOf_lengthLine (xmllength : Nat) (l : List UInt8) :
    contentLengthOf (lengthLine xmllength l) = (contentLengthOf l).map fun _ => some xmllength := by
  rw [lengthLine, contentLengthOf]
  split
  · next hkey =>
    have hstart : startsCI contentLengthKey (text "Content-Length: " ++ digitsText xmllength ++ [13]) = true := by
      rw [List.append_assoc]
      exact startsCI_append (by decide +kernel) _
    have hdrop : (text "Content-Length: " ++ digitsText xmllength ++ [13]).drop 15 =
        32 :: digitsText xmllength ++ [13] := by
      have htext : text "Content-Length: " = text "Content-Length:" ++ [32] := by decide +kernel
      rw [htext, List.append_assoc, List.append_assoc, List.drop_left' (by decide +kernel)]
      rfl
    rw [contentLengthOf, hkey, hstart, hdrop, fieldValue_digitsText]
    rfl
  · next hkey => rw [contentLengthOf, if_neg hkey]; rfl

/-- Where one length was announced, now the other one is. -/
theorem contentLengths_withLength {v : Option Nat} (hone : contentLengths h.bytes = [v]) (xmllength : Nat) :
    contentLengths (h.withLength xmllength).bytes = [some xmllength] := by
  rw [contentLengths_bytes] at hone ⊢
  show (h.lines.map (lengthLine xmllength)).filterMap contentLengthOf = _
  have hlines : contentLengthOf ∘ lengthLine xmllength =
      fun l => (contentLengthOf l).map fun _ => some xmllength :=
    funext (contentLengthOf_lengthLine xmllength)
  rw [List.filterMap_map, hlines, ← List.map_filterMap, hone]
  rfl

/-! ## What is sent of it -/

/-- Lines that fit into `cacheline` are sent one by one. -/
theorem pieces_bytes {linesize : Nat} (hsize : 2 < linesize) (hshort : ∀ l ∈ h.lines, l.length + 1 < linesize) :
    pieces linesize 0 h.bytes = h.lines.map (· ++ [10]) ++ [h.blank] := by
  have hsize' : 1 < linesize := Nat.lt_of_succ_lt hsize
  have hblank : pieces linesize 0 h.blank = [h.blank] := by
    have hline : pieceLength linesize h.blank = h.blank.length := by
      have hblank : lineLength h.blank = h.blank.length ∧ h.blank.length ≤ 2 := by
        rcases h.blank_eq with hb | hb <;> rw [hb] <;> decide
      rw [pieceLength, hblank.1]
      omega
    have hpos : 0 < h.blank.length := by rcases h.blank_eq with hb | hb <;> rw [hb] <;> decide
    rw [pieces_of_lt hsize' hpos, hline, List.take_length, List.drop_length, pieces_of_le (Nat.le_refl 0)]
  have hline := h.one_line
  rw [bytes]
  revert hshort hline
  induction h.lines with
  | nil => exact fun _ _ => hblank
  | cons l ls ih =>
    intro hshort hline
    have hlen : pieceLength linesize (l ++ 10 :: (unlines ls ++ h.blank)) = l.length + 1 := by
      have hfits := hshort l List.mem_cons_self
      rw [pieceLength, lineLength_line (hline l List.mem_cons_self)]
      omega
    have hpos : 0 < (l ++ 10 :: (unlines ls ++ h.blank)).length := by simp
    rw [unlines_cons, pieces_of_lt hsize' hpos, hlen, drop_line, List.append_cons,
      List.take_left' (by rw [List.length_append, List.length_singleton]),
      ih (fun m hm => hshort m (List.mem_cons_of_mem _ hm)) fun m hm => hline m (List.mem_cons_of_mem _ hm),
      List.map_cons, List.cons_append]

theorem onvifLine_line (xmllength : Fin 2147483648) (l : List UInt8) :
    onvifLine xmllength (l ++ [10]) = lengthLine xmllength l ++ [10] := by
  have hkey : startsCI (text "Content-Length:") (l ++ [10]) = startsCI contentLengthKey l :=
    startsCI_line toLower_contentLengthKey
  rw [onvifLine, hkey, lengthLine]
  split <;> simp

/-- The pieces, with the length put in, make up the other head. -/
theorem flatten_map_onvifLine (xmllength : Fin 2147483648) :
    ((h.lines.map (· ++ [10]) ++ [h.blank]).map (onvifLine xmllength)).flatten = (h.withLength xmllength).bytes := by
  have hblank : onvifLine xmllength h.blank = h.blank := by
    have hkey : startsCI (text "Content-Length:") h.blank = false := by
      rcases h.blank_eq with hb | hb <;> rw [hb] <;> decide +kernel
    rw [onvifLine, hkey]
    rfl
  have hlines : onvifLine xmllength ∘ (· ++ [10]) = fun l => lengthLine xmllength l ++ [10] :=
    funext (onvifLine_line xmllength)
  rw [List.map_append, List.map_map, List.map_singleton, hblank, hlines, List.flatten_append,
    List.flatten_singleton, bytes, withLength, unlines, List.flatMap_map]
  rfl

/-! ## The length that is read -/

/-- The number in a header is what `atoi` reads. -/
theorem atoi_of_fieldValue {v rest : List UInt8} {n : Nat} (hv : fieldValue v = some n) (hn : n < 2147483648) :
    atoi (v ++ 10 :: rest) = n := by
  rw [fieldValue] at hv
  split at hv
  · cases hv
  · next hshape =>
    rw [not_or, not_not] at hshape
    have hsplit : v = v.takeWhile isBlank ++ ((v.dropWhile isBlank).takeWhile isDigit ++
        (v.dropWhile isBlank).dropWhile isDigit) := by
      rw [List.takeWhile_append_dropWhile, List.takeWhile_append_dropWhile]
    have hspace : ∀ b, isBlank b = true → isSpace b = true ∧ isDigit b = false := by
      intro b hb
      simp only [isBlank, Bool.or_eq_true, beq_iff_eq] at hb
      rcases hb with (rfl | rfl) | rfl <;> decide
    have hbehind : ∀ b ∈ ((v.dropWhile isBlank).dropWhile isDigit ++ 10 :: rest).head?, isDigit b = false := by
      intro b hb
      cases htail : (v.dropWhile isBlank).dropWhile isDigit with
      | nil =>
        rw [htail, List.nil_append] at hb
        cases hb
        decide
      | cons c tail =>
        rw [htail, List.cons_append] at hb
        obtain rfl : c = b := Option.some.inj hb
        have hall := hshape.2
        rw [htail, List.all_eq_true] at hall
        exact (hspace c (hall c List.mem_cons_self)).2
    have hscan : scanInt (v ++ 10 :: rest) = some (n : Int) := by
      rw [hsplit, List.append_assoc, List.append_assoc,
        scanInt_digits (fun b hb => (hspace b (List.mem_takeWhile_imp hb)).1) hshape.1
          (fun b hb => List.mem_takeWhile_imp hb) hbehind]
      rw [Option.some.inj hv]
    exact atoi_eq hscan hn

variable {l : List UInt8} {fuel left : Nat} {contentLength : Int}

/-- What a line makes of the length. -/
def readLine (l rest : List UInt8) (contentLength : Int) : Int :=
  if startsCI contentLengthKey l then atoi (l.drop 15 ++ 10 :: rest) else contentLength

/-- One line of the loop; it does not get over a NUL. -/
theorem contentLengthLoop_line (hl : 10 ∉ l) (rest : List UInt8) :
    contentLengthLoop (fuel + 1) (l.length + 1 + left) (l ++ 10 :: rest) contentLength =
      if 0 ∈ l then readLine l rest contentLength
      else contentLengthLoop fuel left rest (readLine l rest contentLength) := by
  have hread : (if startsCI contentLengthKey (l ++ 10 :: rest) then atoi ((l ++ 10 :: rest).drop 15)
      else contentLength) = readLine l rest contentLength := by
    rw [startsCI_line toLower_contentLengthKey, readLine]
    split
    · next hkey =>
      have hle : 15 ≤ l.length := startsCI_length_le hkey
      rw [List.drop_append_of_le_length hle]
    · rfl
  rw [contentLengthLoop, if_neg (by omega), hread]
  by_cases hnul : 0 ∈ l
  · have hnone : newlineAt (l ++ 10 :: rest) = none := by
      obtain ⟨p, q, rfl, hp⟩ := List.eq_append_cons_of_mem hnul
      have hcstr : cstr (p ++ 0 :: q ++ 10 :: rest) = p := by
        rw [List.append_assoc, cstr_append hp]
        exact List.append_nil p
      rw [newlineAt, hcstr, List.findIdx?_eq_none_iff]
      intro b hb
      rw [beq_eq_false_iff_ne]
      rintro rfl
      exact hl (List.mem_append_left _ hb)
    rw [if_pos hnul]
    simp only [hnone]
  · have hleft : l.length + 1 + left - (l.length + 1) = left := by omega
    rw [if_neg hnul]
    simp only [newlineAt_line hl hnul, hleft, drop_line]

/-- At the blank line the length is known. -/
theorem contentLengthLoop_blank {blank : List UInt8} (hblank : blank = [10] ∨ blank = [13, 10])
    (rest : List UInt8) :
    contentLengthLoop fuel (blank.length - 1) (blank ++ rest) contentLength = contentLength := by
  cases fuel with
  | zero => rfl
  | succ fuel =>
    rcases hblank with rfl | rfl
    · rfl
    · have hline : (10 : UInt8) ∉ ([13] : List UInt8) := by decide
      have hkey : startsCI contentLengthKey [13] = false := by decide +kernel
      have hloop : contentLengthLoop (fuel + 1) (1 + 1 + 0) ([13] ++ 10 :: rest) contentLength = _ :=
        contentLengthLoop_line hline rest
      rw [if_neg (by decide), readLine, hkey] at hloop
      apply hloop.trans
      cases fuel <;> rfl

section Lines

variable {ls : List (List UInt8)} {blank : List UInt8}

/-- Lines that announce nothing change nothing. -/
theorem contentLengthLoop_none (hline : ∀ l ∈ ls, 10 ∉ l) (hnone : ls.filterMap contentLengthOf = [])
    (hblank : blank = [10] ∨ blank = [13, 10]) (rest : List UInt8) :
    contentLengthLoop fuel ((unlines ls).length + (blank.length - 1)) (unlines ls ++ (blank ++ rest))
      contentLength = contentLength := by
  induction ls generalizing fuel with
  | nil =>
    rw [unlines_nil, List.nil_append, List.length_nil, Nat.zero_add]
    exact contentLengthLoop_blank hblank rest
  | cons l ls ih =>
    cases fuel with
    | zero => rfl
    | succ fuel =>
      rw [List.filterMap_cons] at hnone
      have hkey : startsCI contentLengthKey l = false := by
        by_contra hkey
        rw [contentLengthOf, if_pos (Bool.not_eq_false _ ▸ hkey)] at hnone
        cases hnone
      rw [contentLengthOf, hkey] at hnone
      rw [unlines_cons, length_unlines_cons, Nat.add_assoc,
        contentLengthLoop_line (hline l List.mem_cons_self), readLine, hkey]
      split
      · rfl
      · exact ih (fun m hm => hline m (List.mem_cons_of_mem _ hm)) hnone

/-- The number of the only line that announces one is read, unless a NUL comes first. -/
theorem contentLengthLoop_one {n : Nat} (hline : ∀ l ∈ ls, 10 ∉ l) (hone : ls.filterMap contentLengthOf = [some n])
    (hn : n < 2147483648) (hblank : blank = [10] ∨ blank = [13, 10]) (hfuel : ls.length ≤ fuel)
    (rest : List UInt8) :
    contentLengthLoop fuel ((unlines ls).length + (blank.length - 1)) (unlines ls ++ (blank ++ rest))
        contentLength = n ∨
      0 ∈ unlines ls ∧
        contentLengthLoop fuel ((unlines ls).length + (blank.length - 1)) (unlines ls ++ (blank ++ rest))
          contentLength = contentLength := by
  induction ls generalizing fuel with
  | nil => cases hone
  | cons l ls ih =>
    obtain ⟨fuel, rfl⟩ : ∃ k, fuel = k + 1 := ⟨fuel - 1, by rw [List.length_cons] at hfuel; omega⟩
    have hline' : ∀ m ∈ ls, 10 ∉ m := fun m hm => hline m (List.mem_cons_of_mem _ hm)
    rw [unlines_cons, length_unlines_cons, Nat.add_assoc, contentLengthLoop_line (hline l List.mem_cons_self)]
    rw [List.filterMap_cons] at hone
    by_cases hkey : startsCI contentLengthKey l = true
    · -- this is the line
      rw [contentLengthOf, if_pos hkey, List.cons.injEq] at hone
      have hread : readLine l (unlines ls ++ (blank ++ rest)) contentLength = n := by
        rw [readLine, if_pos hkey]
        exact atoi_of_fieldValue hone.1 hn
      left
      rw [hread]
      split
      · rfl
      · exact contentLengthLoop_none hline' hone.2 hblank rest
    · rw [contentLengthOf, if_neg hkey] at hone
      have hread : readLine l (unlines ls ++ (blank ++ rest)) contentLength = contentLength := if_neg hkey
      rw [hread]
      by_cases hnul : 0 ∈ l
      · right
        rw [if_pos hnul]
        exact ⟨by simp [unlines, hnul], rfl⟩
      · rw [if_neg hnul]
        apply (ih hline' hone (Nat.le_of_succ_le_succ hfuel)).imp_right
        rintro ⟨hmem, hsame⟩
        refine ⟨?_, hsame⟩
        have hcons := unlines_cons l ls []
        rw [List.append_nil, List.append_nil] at hcons
        rw [hcons]
        exact List.mem_append_right _ (List.mem_cons_of_mem _ hmem)

end Lines

/-- **The length of the body is read from the head**, unless there is a NUL in the head. -/
theorem responseContentLength_eq {n : Nat} (hone : contentLengths h.bytes = [some n]) (hn : n < 2147483648)
    (rest : List UInt8) :
    responseContentLength (h.bytes ++ rest) h.bytes.length = n ∨
      0 ∈ h.bytes ∧ responseContentLength (h.bytes ++ rest) h.bytes.length = 0 := by
  rw [contentLengths_bytes] at hone
  have hleft : h.bytes.length - 1 = (unlines h.lines).length + (h.blank.length - 1) := by
    rw [bytes, List.length_append]
    rcases h.blank_eq with hb | hb <;> rw [hb] <;> rfl
  have hfuel : h.lines.length ≤ h.bytes.length := by
    rw [bytes, List.length_append]
    exact Nat.le_add_right_of_le (length_le_unlines h.lines)
  rw [responseContentLength, hleft, bytes, List.append_assoc]
  apply (contentLengthLoop_one h.one_line hone hn h.blank_eq hfuel rest).imp_right
  exact fun hnul => ⟨List.mem_append_left _ hnul.1, hnul.2⟩

end ResponseHead

end ProgrammingPath.Proxy
