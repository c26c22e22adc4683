import Mathlib.Data.Nat.Find
import ProgrammingPath.Multipart.Encoding

/-!
# Forms and what is parsed

With CRLF every part comes out as it went in (`httpFromDataParse_encode`). With LF the line end in front of a delimiter is
taken for a byte of the body, so the two encodings of a form are parsed alike only if it has no part
(`httpFromDataParse_lf_iff`).
-/

namespace ProgrammingPath.Multipart

open ProgrammingPath.Lib

variable {e : LineEnd} {boundary mem rest behind behind' : List UInt8} {size ptr left n : Nat} {parts : List Part}
  {ended : Bool}

/-! ## The search in a body -/

theorem dashes_isLine : IsLine [45, 45] := by
  intro b hb
  obtain rfl : b = 45 := by simpa using hb
  exact ⟨by decide, by decide⟩

theorem delimiter_isLine (h : IsLine boundary) : IsLine (delimiter boundary) := dashes_isLine.append h

/-- A line is not found across a byte of a line end. -/
theorem IsLine.prefix_append_iff {m d : List UInt8} {b : UInt8} (hm : IsLine m) (hb : ¬(b ≠ 13 ∧ b ≠ 10)) :
    m <+: d ++ b :: rest ↔ m <+: d := by
  induction m generalizing d with
  | nil => exact iff_of_true List.nil_prefix List.nil_prefix
  | cons c m ih =>
    cases d with
    | nil =>
      refine iff_of_false (fun h => ?_) (by simp)
      exact hb ((List.cons_prefix_cons.mp h).1 ▸ hm c List.mem_cons_self)
    | cons c' d =>
      rw [List.cons_append, List.cons_prefix_cons, List.cons_prefix_cons,
        ih fun x hx => hm x (List.mem_cons_of_mem _ hx)]

theorem prefix_lineEnd_iff {m d : List UInt8} (hm : IsLine m) : m <+: d ++ (e.bytes ++ rest) ↔ m <+: d := by
  cases e
  · exact hm.prefix_append_iff (by decide)
  · exact hm.prefix_append_iff (by decide)

/-- Where no delimiter begins, the search goes on. -/
theorem formDataBoundaryFindNext_skip {l : List UInt8}
    (h : ∀ i < n, fromDataBoundaryCmp boundary (l.drop i) = none) (hleft : n ≤ left) :
    formDataBoundaryFindNext boundary left l =
      (formDataBoundaryFindNext boundary (left - n) (l.drop n)).map (· + n) := by
  induction n generalizing l left with
  | zero => simp
  | succ n ih =>
    obtain ⟨left, rfl⟩ := Nat.exists_eq_add_of_le' hleft
    have hfirst : fromDataBoundaryCmp boundary l = none := h 0 (Nat.succ_pos n)
    have hrest : ∀ i < n, fromDataBoundaryCmp boundary (l.tail.drop i) = none := by
      intro i hi
      rw [← List.drop_one, List.drop_drop, Nat.add_comm]
      exact h (i + 1) (Nat.succ_lt_succ hi)
    rw [show left + (n + 1) = left + n + 1 by omega, formDataBoundaryFindNext, hfirst,
      Option.isSome_none, if_neg Bool.false_ne_true, ih hrest (Nat.le_add_left n left), Option.map_map,
      ← List.drop_one, List.drop_drop, Nat.add_comm 1 n, Nat.add_sub_cancel,
      show left + n + 1 - (n + 1) = left by omega]
    rfl

theorem formDataBoundaryFindNext_of_isSome {l : List UInt8} (h : (fromDataBoundaryCmp boundary l).isSome)
    (hleft : 0 < left) : formDataBoundaryFindNext boundary left l = some 0 := by
  obtain ⟨left, rfl⟩ := Nat.exists_eq_succ_of_ne_zero (Nat.ne_of_gt hleft)
  rw [formDataBoundaryFindNext, if_pos h]

/-- No delimiter begins in a line end. -/
theorem fromDataBoundaryCmp_lineEnd {i : Nat} (hi : i < e.bytes.length) :
    fromDataBoundaryCmp boundary ((e.bytes ++ rest).drop i) = none := by
  cases e with
  | crlf =>
    obtain rfl | rfl : i = 0 ∨ i = 1 := by
      have : i < 2 := hi
      omega
    · exact fromDataBoundaryCmp_of_ne (by decide)
    · exact fromDataBoundaryCmp_of_ne (by decide)
  | lf =>
    obtain rfl : i = 0 := by
      have : i < 1 := hi
      omega
    exact fromDataBoundaryCmp_of_ne (by decide)

/-- Behind a body without a delimiter the search comes to the one behind the line end. -/
theorem formDataBoundaryFindNext_body {body : List UInt8}
    (hbody : ∀ i < body.length, fromDataBoundaryCmp boundary (body.drop i ++ (e.bytes ++ rest)) = none)
    (hrest : (fromDataBoundaryCmp boundary rest).isSome) (hleft : body.length + e.bytes.length < left) :
    formDataBoundaryFindNext boundary left (body ++ (e.bytes ++ rest)) =
      some (body.length + e.bytes.length) := by
  have hnone : ∀ i < body.length + e.bytes.length,
      fromDataBoundaryCmp boundary ((body ++ (e.bytes ++ rest)).drop i) = none := by
    intro i hi
    by_cases hlt : i < body.length
    · rw [List.drop_append_of_le_length (Nat.le_of_lt hlt)]
      exact hbody i hlt
    · obtain ⟨j, rfl⟩ := Nat.exists_eq_add_of_le (Nat.le_of_not_lt hlt)
      rw [← List.drop_drop, List.drop_left]
      exact fromDataBoundaryCmp_lineEnd (by omega)
  have hdrop : (body ++ (e.bytes ++ rest)).drop (body.length + e.bytes.length) = rest := by
    rw [← List.drop_drop, List.drop_left, List.drop_left]
  rw [formDataBoundaryFindNext_skip hnone (Nat.le_of_lt hleft), hdrop,
    formDataBoundaryFindNext_of_isSome hrest (by omega), Option.map_some, Nat.zero_add]

/-! ## Forms -/

theorem encode_cons (e : LineEnd) (boundary : List UInt8) (p : Part) (parts : List Part) (ended : Bool) :
    encode e boundary (p :: parts) ended =
      p.before e boundary ++ (p.body ++ (e.bytes ++ encode e boundary parts ended)) := by
  simp only [encode, Part.encode, List.flatMap_cons, List.append_assoc]

/-- A form begins with a delimiter. -/
theorem fromDataBoundaryCmp_encode :
    (fromDataBoundaryCmp boundary (encode e boundary parts ended ++ behind)).isSome := by
  cases parts with
  | nil =>
    rw [show encode e boundary [] ended = closing e boundary ended from rfl, closing,
      List.append_assoc, List.append_assoc, fromDataBoundaryCmp_closing]
    rfl
  | cons p parts =>
    rw [encode_cons, Part.before, List.append_assoc, List.append_assoc, List.append_assoc,
      fromDataBoundaryCmp_delimiter]
    rfl

theorem length_encode_pos : 0 < (encode e boundary parts ended).length := by
  simp only [encode, closing, delimiter, List.length_append, List.length_cons, List.length_nil]
  omega

/-- Behind the closing delimiter there is room for a line end, and no part. -/
theorem parseFrom_closing (hrest : mem.drop ptr = closing e boundary ended ++ behind)
    (hsize : ptr + (closing e boundary ended).length = size) : parseFrom boundary mem size ptr = [] := by
  have hcmp : fromDataBoundaryCmp boundary (mem.drop ptr) = some (2 + boundary.length + 2) := by
    rw [hrest, closing, List.append_assoc, List.append_assoc, fromDataBoundaryCmp_closing]
  have hlen : size ≤ ptr + (2 + boundary.length + 2) + 2 := by
    rw [← hsize, closing, delimiter]
    cases ended <;> cases e <;> simp [LineEnd.bytes] <;> omega
  have hlt : ptr < size := by
    rw [← hsize, closing, delimiter]
    simp
  rw [parseFrom_of_lt hlt, turn, hcmp]
  dsimp only
  split
  · next hroom =>
    have hskip : ¬skipHeader (size - (ptr + (2 + boundary.length + 2)))
        (mem.drop (ptr + (2 + boundary.length + 2))) < size - (ptr + (2 + boundary.length + 2)) := by
      intro h
      have htwo := two_le_skipHeader h
      omega
    rw [if_neg (by omega)]
    exact parseFrom_of_le (by show size ≤ _; omega)
  · exact parseFrom_of_le (by show size ≤ _; omega)

/-- A line end in front of what is parsed is passed over. -/
theorem parseFrom_lineEnd (hrest : mem.drop ptr = e.bytes ++ rest) (hsize : ptr + e.bytes.length ≤ size) :
    parseFrom boundary mem size ptr = parseFrom boundary mem size (ptr + e.bytes.length) := by
  refine parseFrom_skip (fun i hp hi => ?_) (Nat.le_add_right _ _) hsize
  obtain ⟨i, rfl⟩ := Nat.exists_eq_add_of_le hp
  rw [← List.drop_drop, hrest]
  exact fromDataBoundaryCmp_lineEnd (Nat.lt_of_add_lt_add_left hi)

/-- What a part is handed over as; the disposition is a C string. -/
def Part.callback (p : Part) : Callback := ⟨cstr p.disposition, p.body, p.body.length⟩

theorem parseFrom_encode (hline : IsLine boundary)
    (hparts : ∀ p ∈ parts, p.disposition.length ≤ 99 ∧ ¬[45, 45] ++ boundary <:+: p.body)
    (hrest : mem.drop ptr = encode .crlf boundary parts ended ++ behind)
    (hsize : ptr + (encode .crlf boundary parts ended).length = size) :
    parseFrom boundary mem size ptr = parts.map Part.callback := by
  induction parts generalizing ptr with
  | nil => exact parseFrom_closing hrest hsize
  | cons p parts ih =>
    obtain ⟨hname, hbody⟩ := hparts p List.mem_cons_self
    have hpos := @length_encode_pos .crlf boundary parts ended
    rw [encode_cons] at hrest hsize
    simp only [List.append_assoc] at hrest
    simp only [List.length_append] at hsize
    have hnone : ∀ i < p.body.length, fromDataBoundaryCmp boundary
        (p.body.drop i ++ (LineEnd.crlf.bytes ++ (encode .crlf boundary parts ended ++ behind))) = none := by
      intro i _
      rw [fromDataBoundaryCmp, if_neg]
      intro h
      have hpre := (prefix_lineEnd_iff (delimiter_isLine hline)).mp h
      exact hbody (hpre.isInfix.trans (List.drop_suffix _ _).isInfix)
    have hroom : ptr + (p.before .crlf boundary).length < size := by omega
    have hfound : formDataBoundaryFindNext boundary (size - (ptr + (p.before .crlf boundary).length))
        (p.body ++ (LineEnd.crlf.bytes ++ (encode .crlf boundary parts ended ++ behind))) =
          some (p.body.length + LineEnd.crlf.bytes.length) :=
      formDataBoundaryFindNext_body hnone fromDataBoundaryCmp_encode (by omega)
    have hturn := turn_part hrest hroom hfound
    have hret : ((p.body.length + LineEnd.crlf.bytes.length : Nat) : Int) - correction .crlf =
        p.body.length := by
      show ((p.body.length + 2 : Nat) : Int) - 2 = p.body.length
      omega
    rw [hret, Int.toNat_natCast, List.take_left, List.take_of_length_le (by omega)] at hturn
    have hafter : mem.drop (ptr + (p.before .crlf boundary).length + p.body.length) =
        LineEnd.crlf.bytes ++ (encode .crlf boundary parts ended ++ behind) := by
      rw [← List.drop_drop, ← List.drop_drop, hrest, List.drop_left, List.drop_left]
    have hnext : mem.drop (ptr + (p.before .crlf boundary).length + p.body.length +
        LineEnd.crlf.bytes.length) = encode .crlf boundary parts ended ++ behind := by
      rw [← List.drop_drop, hafter, List.drop_left]
    have hlater := ih (fun q hq => hparts q (List.mem_cons_of_mem _ hq)) hnext (by omega)
    rw [parseFrom_of_lt (by omega), hturn]
    show p.callback :: parseFrom boundary mem size (((ptr + (p.before .crlf boundary).length : Nat) : Int) +
      (p.body.length : Int)).toNat = _
    rw [show (((ptr + (p.before .crlf boundary).length : Nat) : Int) + (p.body.length : Int)).toNat =
      ptr + (p.before .crlf boundary).length + p.body.length by omega, parseFrom_lineEnd hafter (by omega),
      hlater, List.map_cons]

/-- A form with CRLF is parsed into its parts, whatever is behind it. -/
theorem httpFromDataParse_encode (boundary : List UInt8) (parts : List Part) (ended : Bool)
    (behind : List UInt8) (hline : IsLine boundary)
    (hparts : ∀ p ∈ parts, p.disposition.length ≤ 99 ∧ ¬[45, 45] ++ boundary <:+: p.body) :
    httpFromDataParse boundary (encode .crlf boundary parts ended ++ behind)
      (encode .crlf boundary parts ended).length =
        parts.map fun p => ⟨cstr p.disposition, p.body, p.body.length⟩ :=
  parseFrom_encode hline hparts rfl (Nat.zero_add _)

def photo : Part where
  disposition := text "form-data; name=\"f\""
  contentType := some (text "image/jpeg")
  body := [0, 13, 10, 45, 45, 98, 13, 10, 13, 10]
  disposition_line := by decide +kernel
  contentType_line := by decide +kernel

def remark : Part where
  disposition := text "form-data; name=\"r\""
  contentType := none
  body := []
  disposition_line := by decide +kernel
  contentType_line := by decide +kernel

theorem httpFromDataParse_photo_remark :
    IsLine (text "xy") ∧
      (∀ p ∈ [photo, remark], p.disposition.length ≤ 99 ∧ ¬[45, 45] ++ text "xy" <:+: p.body) ∧
      httpFromDataParse (text "xy") (encode .crlf (text "xy") [photo, remark] true ++ [0])
        (encode .crlf (text "xy") [photo, remark] true).length =
          [photo, remark].map fun p => ⟨cstr p.disposition, p.body, p.body.length⟩ := by
  have hline : IsLine (text "xy") := by decide +kernel
  have hparts : ∀ p ∈ [photo, remark],
      p.disposition.length ≤ 99 ∧ ¬[45, 45] ++ text "xy" <:+: p.body := by decide +kernel
  exact ⟨hline, hparts, httpFromDataParse_encode (text "xy") [photo, remark] true [0] hline hparts⟩

/-! ## CRLF and LF -/

/-- A line that begins with a delimiter, and ends there or goes on with two dashes. -/
def BeginsDelimited (boundary d : List UInt8) : Prop :=
  delimiter boundary <+: d ∧
    (d.drop (delimiter boundary).length = [] ∨ [45, 45] <+: d.drop (delimiter boundary).length)

/-- Whether a delimiter begins at a line does not depend on how the line ends. -/
theorem fromDataBoundaryCmp_line_iff {d : List UInt8} (hline : IsLine boundary) (hd : IsLine d) :
    (fromDataBoundaryCmp boundary (d ++ (e.bytes ++ rest))).isSome ↔ BeginsDelimited boundary d := by
  have hlen : 2 + boundary.length = (delimiter boundary).length := by
    simp [delimiter]
    omega
  have hiff : [45, 45] ++ boundary <+: d ++ (e.bytes ++ rest) ↔ delimiter boundary <+: d :=
    prefix_lineEnd_iff (delimiter_isLine hline)
  rw [fromDataBoundaryCmp, BeginsDelimited, if_congr hiff rfl rfl, hlen]
  by_cases hpre : delimiter boundary <+: d
  · obtain ⟨d', rfl⟩ := hpre
    have hd' : IsLine d' := fun b hb => hd b (List.mem_append_right _ hb)
    rw [if_pos (List.prefix_append _ _), List.append_assoc, List.drop_left, List.drop_left]
    cases d' with
    | nil => cases e <;> simp [LineEnd.bytes]
    | cons b d' =>
      have hb := hd' b List.mem_cons_self
      have hcrlf : ¬[13, 10] <+: b :: d' ++ (e.bytes ++ rest) :=
        fun h => hb.1 (List.cons_prefix_cons.mp h).1.symm
      have hlf : ¬[10] <+: b :: d' ++ (e.bytes ++ rest) :=
        fun h => hb.2 (List.cons_prefix_cons.mp h).1.symm
      have hend : [45, 45] <+: b :: d' ++ (e.bytes ++ rest) ↔ [45, 45] <+: b :: d' :=
        prefix_lineEnd_iff dashes_isLine
      rw [if_neg hcrlf, if_neg hlf, if_congr hend rfl rfl]
      simp
  · rw [if_neg hpre]
    simp [hpre]

/-- In a body without line ends a delimiter is found at the same place, or not at all. -/
theorem formDataBoundaryFindNext_line {body : List UInt8} (hline : IsLine boundary) (hbody : IsLine body) :
    (∃ k, ∀ (e : LineEnd) (rest : List UInt8) (left : Nat), body.length ≤ left →
      formDataBoundaryFindNext boundary left (body ++ (e.bytes ++ rest)) = some k) ∨
    ∀ (e : LineEnd) (rest : List UInt8), ∀ i < body.length,
      fromDataBoundaryCmp boundary (body.drop i ++ (e.bytes ++ rest)) = none := by
  have hdrop (i : Nat) : IsLine (body.drop i) := fun b hb => hbody b (List.mem_of_mem_drop hb)
  by_cases hex : ∃ i, i < body.length ∧ BeginsDelimited boundary (body.drop i)
  · classical
    left
    refine ⟨Nat.find hex, fun e rest left hleft => ?_⟩
    obtain ⟨hlt, hfound⟩ := Nat.find_spec hex
    have hnone : ∀ i < Nat.find hex,
        fromDataBoundaryCmp boundary ((body ++ (e.bytes ++ rest)).drop i) = none := by
      intro i hi
      rw [List.drop_append_of_le_length (by omega), ← Option.not_isSome_iff_eq_none,
        fromDataBoundaryCmp_line_iff hline (hdrop i)]
      exact fun h => Nat.find_min hex hi ⟨hi.trans hlt, h⟩
    rw [formDataBoundaryFindNext_skip hnone (by omega),
      List.drop_append_of_le_length (Nat.le_of_lt hlt),
      formDataBoundaryFindNext_of_isSome ((fromDataBoundaryCmp_line_iff hline (hdrop _)).mpr hfound)
        (by omega), Option.map_some, Nat.zero_add]
  · right
    intro e rest i hi
    rw [← Option.not_isSome_iff_eq_none, fromDataBoundaryCmp_line_iff hline (hdrop i)]
    exact fun h => hex ⟨i, hi, h⟩

/-- The first call for a form that begins with a part. -/
theorem httpFromDataParse_cons {k : Nat} {p : Part}
    (hk : formDataBoundaryFindNext boundary
      ((encode e boundary (p :: parts) ended).length - (p.before e boundary).length)
      (p.body ++ (e.bytes ++ (encode e boundary parts ended ++ behind))) = some k) :
    ((httpFromDataParse boundary (encode e boundary (p :: parts) ended ++ behind)
      (encode e boundary (p :: parts) ended).length).head?.map Callback.size) = some (k - correction e) := by
  have hrest : (encode e boundary (p :: parts) ended ++ behind).drop 0 =
      p.before e boundary ++ (p.body ++ (e.bytes ++ (encode e boundary parts ended ++ behind))) := by
    rw [List.drop_zero, encode_cons]
    simp only [List.append_assoc]
  have hroom : 0 + (p.before e boundary).length < (encode e boundary (p :: parts) ended).length := by
    have hpos := @length_encode_pos e boundary parts ended
    rw [encode_cons]
    simp only [List.length_append]
    omega
  rw [← Nat.zero_add (p.before e boundary).length] at hk
  rw [httpFromDataParse_eq, parseFrom_of_lt length_encode_pos, turn_part hrest hroom hk]
  rfl

/-- The two encodings of a form are parsed alike if it has no part, and only then. -/
theorem httpFromDataParse_lf_iff (boundary : List UInt8) (parts : List Part) (ended : Bool)
    (behind behind' : List UInt8) (hline : IsLine boundary) (hbodies : ∀ p ∈ parts, IsLine p.body) :
    httpFromDataParse boundary (encode .crlf boundary parts ended ++ behind)
        (encode .crlf boundary parts ended).length =
      httpFromDataParse boundary (encode .lf boundary parts ended ++ behind')
        (encode .lf boundary parts ended).length ↔
    parts = [] := by
  cases parts with
  | nil =>
    have hnone (e : LineEnd) (behind : List UInt8) : httpFromDataParse boundary
        (encode e boundary [] ended ++ behind) (encode e boundary [] ended).length = [] :=
      parseFrom_closing rfl (Nat.zero_add _)
    exact iff_of_true ((hnone .crlf behind).trans (hnone .lf behind').symm) rfl
  | cons p parts =>
    refine iff_of_false (fun heq => ?_) (List.cons_ne_nil _ _)
    have hroom (e : LineEnd) : p.body.length + e.bytes.length <
        (encode e boundary (p :: parts) ended).length - (p.before e boundary).length := by
      have hpos := @length_encode_pos e boundary parts ended
      rw [encode_cons]
      simp only [List.length_append]
      omega
    have hsize := congrArg (fun l => l.head?.map Callback.size) heq
    obtain ⟨k, hk⟩ | hnone := formDataBoundaryFindNext_line hline (hbodies p List.mem_cons_self)
    · have hcrlf := httpFromDataParse_cons (hk .crlf (encode .crlf boundary parts ended ++ behind) _
        (Nat.le_of_lt (Nat.lt_of_le_of_lt (Nat.le_add_right _ _) (hroom .crlf))))
      have hlf := httpFromDataParse_cons (hk .lf (encode .lf boundary parts ended ++ behind') _
        (Nat.le_of_lt (Nat.lt_of_le_of_lt (Nat.le_add_right _ _) (hroom .lf))))
      have hsame := Option.some.inj (hcrlf.symm.trans (hsize.trans hlf))
      have hcut : (k : Int) - 2 = k - 0 := hsame
      omega
    · have hcrlf := httpFromDataParse_cons
        (formDataBoundaryFindNext_body (hnone .crlf (encode .crlf boundary parts ended ++ behind))
          fromDataBoundaryCmp_encode (hroom .crlf))
      have hlf := httpFromDataParse_cons
        (formDataBoundaryFindNext_body (hnone .lf (encode .lf boundary parts ended ++ behind'))
          fromDataBoundaryCmp_encode (hroom .lf))
      have hsame := Option.some.inj (hcrlf.symm.trans (hsize.trans hlf))
      have hcut : ((p.body.length + 2 : Nat) : Int) - 2 = ((p.body.length + 1 : Nat) : Int) - 0 := hsame
      omega

def plain : Part where
  disposition := text "form-data; name=\"t\""
  contentType := none
  body := text "hello"
  disposition_line := by decide +kernel
  contentType_line := by decide +kernel

theorem httpFromDataParse_lf_iff_plain :
    IsLine (text "xy") ∧ (∀ p ∈ [plain], IsLine p.body) ∧
      (httpFromDataParse (text "xy") (encode .crlf (text "xy") [plain] true ++ [0])
          (encode .crlf (text "xy") [plain] true).length =
        httpFromDataParse (text "xy") (encode .lf (text "xy") [plain] true ++ [])
          (encode .lf (text "xy") [plain] true).length ↔ [plain] = []) := by
  have hline : IsLine (text "xy") := by decide +kernel
  have hbodies : ∀ p ∈ [plain], IsLine p.body := by decide +kernel
  exact ⟨hline, hbodies, httpFromDataParse_lf_iff (text "xy") [plain] true [0] [] hline hbodies⟩

theorem httpFromDataParse_lf_ne :
    IsLine (text "xy") ∧ (∀ p ∈ [plain], IsLine p.body) ∧
      httpFromDataParse (text "xy") (encode .lf (text "xy") [plain] true ++ [0])
          (encode .lf (text "xy") [plain] true).length =
        [⟨text "form-data; name=\"t\"", text "hello" ++ [10], 6⟩] ∧
      httpFromDataParse (text "xy") (encode .crlf (text "xy") [plain] true ++ [0])
          (encode .crlf (text "xy") [plain] true).length ≠
        httpFromDataParse (text "xy") (encode .lf (text "xy") [plain] true ++ [0])
          (encode .lf (text "xy") [plain] true).length := by
  decide +kernel

end ProgrammingPath.Multipart
