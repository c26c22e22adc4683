import Mathlib.Data.List.GetD
import ProgrammingPath.Multipart.Parse

/-!
# Forms and their encoding

A form is encoded with one of two line ends. The parser accepts both, in the delimiter and at the end of the header.
`turn_part` is the turn of its loop at a part: one call, with the length corrected for CRLF only.
-/

namespace ProgrammingPath.Multipart

open ProgrammingPath.Lib

/-! ## Forms -/

inductive LineEnd
  | crlf
  | lf
  deriving DecidableEq, Repr

def LineEnd.bytes : LineEnd → List UInt8
  | .crlf => [13, 10]
  | .lf => [10]

/-- Text without a line end. -/
def IsLine (l : List UInt8) : Prop := ∀ b ∈ l, b ≠ 13 ∧ b ≠ 10

instance : DecidablePred IsLine := fun l => inferInstanceAs (Decidable (∀ b ∈ l, _))

/-- A part of a form. -/
structure Part where
  disposition : List UInt8
  contentType : Option (List UInt8)
  body : List UInt8
  disposition_line : IsLine disposition
  contentType_line : ∀ c ∈ contentType, IsLine c

/-- The delimiter without its line end. -/
def delimiter (boundary : List UInt8) : List UInt8 := [45, 45] ++ boundary

/-- The lines of the header. -/
def Part.header (e : LineEnd) (p : Part) : List UInt8 :=
  text "Content-Disposition:" ++ (32 :: p.disposition) ++ e.bytes ++
    match p.contentType with
    | none => []
    | some c => text "Content-Type: " ++ c ++ e.bytes

/-- What is in front of the body: the delimiter, the header and a blank line. -/
def Part.before (e : LineEnd) (boundary : List UInt8) (p : Part) : List UInt8 :=
  delimiter boundary ++ (e.bytes ++ (p.header e ++ e.bytes))

/-- A part with the line end behind its body. -/
def Part.encode (e : LineEnd) (boundary : List UInt8) (p : Part) : List UInt8 :=
  p.before e boundary ++ (p.body ++ e.bytes)

/-- The closing delimiter, with or without a line end behind it. -/
def closing (e : LineEnd) (boundary : List UInt8) (ended : Bool) : List UInt8 :=
  delimiter boundary ++ [45, 45] ++ if ended then e.bytes else []

def encode (e : LineEnd) (boundary : List UInt8) (parts : List Part) (ended : Bool) : List UInt8 :=
  parts.flatMap (Part.encode e boundary) ++ closing e boundary ended

/-! ## The delimiter -/

variable {e : LineEnd} {boundary mem rest more : List UInt8} {p : Part} {size ptr left : Nat}

/-- Where a delimiter is seen, and how long it is. -/
theorem fromDataBoundaryCmp_eq_some_iff {l : List UInt8} {k : Nat} :
    fromDataBoundaryCmp boundary l = some k ↔
      (k = (delimiter boundary ++ [13, 10]).length ∧ delimiter boundary ++ [13, 10] <+: l) ∨
      (k = (delimiter boundary ++ [10]).length ∧ delimiter boundary ++ [10] <+: l) ∨
      (k = (delimiter boundary ++ [45, 45]).length ∧ delimiter boundary ++ [45, 45] <+: l) := by
  have hlen : 2 + boundary.length = (delimiter boundary).length := by
    simp [delimiter]
    omega
  by_cases hpre : [45, 45] ++ boundary <+: l
  · rw [fromDataBoundaryCmp, if_pos hpre, hlen]
    change delimiter boundary <+: l at hpre
    obtain ⟨t, rfl⟩ := hpre
    rw [List.drop_left]
    simp only [List.prefix_append_right_inj, List.length_append, List.length_cons, List.length_nil]
    by_cases hcrlf : [13, 10] <+: t
    · obtain ⟨t, rfl⟩ := hcrlf
      simp [eq_comm]
    · by_cases hlf : [10] <+: t
      · obtain ⟨t, rfl⟩ := hlf
        simp [eq_comm]
      · by_cases hend : [45, 45] <+: t
        · simp [hcrlf, hlf, hend, eq_comm]
        · simp [hcrlf, hlf, hend]
  · have hno (x : List UInt8) : ¬delimiter boundary ++ x <+: l :=
      fun hx => hpre ((List.prefix_append _ _).trans hx)
    rw [fromDataBoundaryCmp, if_neg hpre]
    simp [hno]

theorem fromDataBoundaryCmp_delimiter :
    fromDataBoundaryCmp boundary (delimiter boundary ++ (e.bytes ++ rest)) =
      some (2 + boundary.length + e.bytes.length) := by
  have hlen : 2 + boundary.length + e.bytes.length = (delimiter boundary ++ e.bytes).length := by
    simp [delimiter]
    omega
  rw [← List.append_assoc, hlen, fromDataBoundaryCmp_eq_some_iff]
  cases e with
  | crlf => exact .inl ⟨rfl, List.prefix_append _ _⟩
  | lf => exact .inr (.inl ⟨rfl, List.prefix_append _ _⟩)

theorem fromDataBoundaryCmp_closing :
    fromDataBoundaryCmp boundary (delimiter boundary ++ ([45, 45] ++ rest)) =
      some (2 + boundary.length + 2) := by
  have hlen : 2 + boundary.length + 2 = (delimiter boundary ++ [45, 45]).length := by
    simp [delimiter]
    omega
  rw [← List.append_assoc, hlen, fromDataBoundaryCmp_eq_some_iff]
  exact .inr (.inr ⟨rfl, List.prefix_append _ _⟩)

/-- A delimiter does not begin with anything but a dash. -/
theorem fromDataBoundaryCmp_of_ne {b : UInt8} (hb : b ≠ 45) :
    fromDataBoundaryCmp boundary (b :: rest) = none := by
  rw [fromDataBoundaryCmp, if_neg]
  rintro ⟨t, ht⟩
  exact hb (List.cons.inj ht).1.symm

/-! ## The header -/

theorem skipHeader_line {l : List UInt8} (hl : IsLine l) (hleft : l.length ≤ left) :
    skipHeader left (l ++ rest) = l.length + skipHeader (left - l.length) rest := by
  induction l generalizing left with
  | nil => simp
  | cons b l ih =>
    obtain ⟨left, rfl⟩ := Nat.exists_eq_succ_of_ne_zero (Nat.ne_zero_of_lt hleft)
    have hb := hl b List.mem_cons_self
    have hrest : IsLine l := fun c hc => hl c (List.mem_cons_of_mem _ hc)
    have h4 : ¬[13, 10, 13, 10] <+: b :: (l ++ rest) := fun h => hb.1 (List.cons_prefix_cons.mp h).1.symm
    have h2 : ¬[10, 10] <+: b :: (l ++ rest) := fun h => hb.2 (List.cons_prefix_cons.mp h).1.symm
    rw [List.cons_append, skipHeader, if_neg h4, if_neg h2, List.tail_cons,
      ih hrest (Nat.le_of_succ_le_succ hleft), List.length_cons, Nat.succ_eq_add_one,
      Nat.add_sub_add_right]
    omega

/-- A line end with another line behind it. -/
theorem skipHeader_lineEnd {b : UInt8} (hb : b ≠ 13 ∧ b ≠ 10) (hleft : e.bytes.length ≤ left) :
    skipHeader left (e.bytes ++ b :: rest) =
      e.bytes.length + skipHeader (left - e.bytes.length) (b :: rest) := by
  cases e with
  | crlf =>
    obtain ⟨left, rfl⟩ := Nat.exists_eq_add_of_le' hleft
    simp [LineEnd.bytes, skipHeader, hb.1.symm, hb.2.symm]
    omega
  | lf =>
    obtain ⟨left, rfl⟩ := Nat.exists_eq_add_of_le' hleft
    simp [LineEnd.bytes, skipHeader, hb.2.symm]
    omega

/-- The end of the header. -/
theorem skipHeader_blank (hleft : 0 < left) :
    skipHeader left (e.bytes ++ (e.bytes ++ rest)) = e.bytes.length + e.bytes.length := by
  obtain ⟨left, rfl⟩ := Nat.exists_eq_succ_of_ne_zero (Nat.ne_of_gt hleft)
  cases e <;> simp [LineEnd.bytes, skipHeader]

theorem IsLine.append {l l' : List UInt8} (h : IsLine l) (h' : IsLine l') : IsLine (l ++ l') :=
  fun b hb => (List.mem_append.mp hb).elim (h b) (h' b)

theorem IsLine.cons {b : UInt8} {l : List UInt8} (hb : b ≠ 13 ∧ b ≠ 10) (h : IsLine l) : IsLine (b :: l) :=
  fun _ hc => (List.mem_cons.mp hc).elim (fun heq => heq ▸ hb) (h _)

/-- The name of the header, as it is found. -/
theorem dispositionName : ∃ b l, text "Content-Disposition:" = b :: l ∧ b ≠ 0 ∧ b ≠ 13 ∧ b ≠ 10 ∧ IsLine l :=
  ⟨67, (text "Content-Disposition:").tail, by decide +kernel⟩

theorem typeName : ∃ b l, text "Content-Type: " = b :: l ∧ b ≠ 13 ∧ b ≠ 10 ∧ IsLine l :=
  ⟨67, (text "Content-Type: ").tail, by decide +kernel⟩

theorem disposition_isLine (p : Part) : IsLine (text "Content-Disposition:" ++ (32 :: p.disposition)) := by
  obtain ⟨b, l, hname, -, hb, hb', hl⟩ := dispositionName
  rw [hname]
  exact (IsLine.cons ⟨hb, hb'⟩ hl).append (IsLine.cons (by decide) p.disposition_line)

/-- The header is skipped with the blank line behind it. -/
theorem skipHeader_header (hleft : (p.header e).length + e.bytes.length ≤ left) :
    skipHeader left (p.header e ++ (e.bytes ++ rest)) = (p.header e).length + e.bytes.length := by
  have hpos : 0 < e.bytes.length := by cases e <;> decide
  have hline := disposition_isLine p
  have htype := p.contentType_line
  rw [Part.header] at hleft ⊢
  cases hc : p.contentType with
  | none =>
    rw [hc] at hleft
    simp only [List.append_nil, List.length_append] at hleft ⊢
    rw [List.append_assoc, skipHeader_line hline (by rw [List.length_append]; omega),
      skipHeader_blank (by rw [List.length_append]; omega), List.length_append]
    omega
  | some c =>
    obtain ⟨b, l, hname, hb, hb', hl⟩ := typeName
    have hcl : IsLine (text "Content-Type: " ++ c) := by
      rw [hname]
      exact (IsLine.cons ⟨hb, hb'⟩ hl).append (htype c (by rw [hc]; rfl))
    have hcons : text "Content-Type: " ++ c = b :: (l ++ c) := by rw [hname, List.cons_append]
    rw [hc] at hleft
    simp only [List.length_append] at hleft
    have hskip : skipHeader (left - (text "Content-Disposition:" ++ (32 :: p.disposition)).length)
        (e.bytes ++ (text "Content-Type: " ++ c ++ (e.bytes ++ (e.bytes ++ rest)))) =
        e.bytes.length + ((text "Content-Type: " ++ c).length + (e.bytes.length + e.bytes.length)) := by
      rw [hcons, List.cons_append, skipHeader_lineEnd ⟨hb, hb'⟩ (by rw [List.length_append]; omega),
        ← List.cons_append, ← hcons, skipHeader_line hcl (by simp only [List.length_append]; omega),
        skipHeader_blank (by simp only [List.length_append]; omega)]
    simp only [List.append_assoc] at hskip ⊢
    rw [← List.append_assoc, skipHeader_line hline (by rw [List.length_append]; omega), hskip]
    simp only [List.length_append]
    omega

/-- A name that is at the beginning of the header is found there. -/
theorem httpHeaderGet_of_name {name : List UInt8} {b : UInt8} {l : List UInt8} (hname : name = b :: l)
    (hb : b ≠ 0 ∧ b ≠ 13 ∧ b ≠ 10) (rest : List UInt8) :
    httpHeaderGet name (name ++ rest) = some (name ++ rest) := by
  have hstop : ¬(b = 0 ∨ [13, 10, 13, 10] <+: b :: (l ++ rest) ∨ [10, 10] <+: b :: (l ++ rest)) := by
    rintro (h | h | h)
    · exact hb.1 h
    · exact hb.2.1 (List.cons_prefix_cons.mp h).1.symm
    · exact hb.2.2 (List.cons_prefix_cons.mp h).1.symm
  have hpre : name <+: b :: (l ++ rest) := by
    rw [hname]
    exact List.prefix_append (b :: l) rest
  subst hname
  rw [List.cons_append, httpHeaderGet, if_neg hstop, if_pos hpre]

/-- Text up to its line end. -/
theorem takeWhile_line {l : List UInt8} (hl : IsLine l) (e : LineEnd) (rest : List UInt8) :
    (l ++ (e.bytes ++ rest)).takeWhile (fun b => b != 10 && b != 13) = l := by
  have hall : ∀ b ∈ l, (b != 10 && b != 13) = true := by
    intro b hb
    rw [Bool.and_eq_true, bne_iff_ne, bne_iff_ne]
    exact ⟨(hl b hb).2, (hl b hb).1⟩
  have hnil : (e.bytes ++ rest).takeWhile (fun b => b != 10 && b != 13) = [] := by
    cases e <;> rfl
  rw [List.takeWhile_append_of_pos hall, hnil, List.append_nil]

/-- The disposition is found, cut to the size of the array. -/
theorem formDataName_header :
    formDataName (p.header e ++ rest) = cstr (p.disposition.take 100) := by
  obtain ⟨b, l, hname, h0, h13, h10, -⟩ := dispositionName
  have hget := httpHeaderGet_of_name hname ⟨h0, h13, h10⟩
  rw [formDataName, Part.header]
  simp only [List.append_assoc, hget, List.drop_left, List.cons_append, List.head?_cons, if_true,
    List.tail_cons, takeWhile_line p.disposition_line]

/-! ## The turn at a part -/

/-- By how much the length is corrected for the line end in front of the delimiter. -/
def correction : LineEnd → Int
  | .crlf => 2
  | .lf => 0

theorem before_eq_append (e : LineEnd) (boundary : List UInt8) (p : Part) :
    ∃ front, p.before e boundary = front ++ (e.bytes ++ e.bytes) := by
  have hheader : ∃ lines, p.header e = lines ++ e.bytes := by
    rw [Part.header]
    cases p.contentType with
    | none => exact ⟨_, List.append_nil _⟩
    | some c => exact ⟨_, (List.append_assoc _ _ _).symm⟩
  obtain ⟨lines, hlines⟩ := hheader
  refine ⟨delimiter boundary ++ (e.bytes ++ lines), ?_⟩
  rw [Part.before, hlines]
  simp only [List.append_assoc]

theorem getD_of_drop (hrest : mem.drop ptr = rest) (i : Nat) : mem.getD (ptr + i) 0 = rest.getD i 0 := by
  rw [← hrest, List.getD_eq_getElem?_getD, List.getD_eq_getElem?_getD, List.getElem?_drop]

/-- The two bytes in front of the body. -/
theorem lineEnd_before (hrest : mem.drop ptr = p.before e boundary ++ more) :
    (mem.getD (ptr + (p.before e boundary).length - 1) 0 = 10 ∧
      mem.getD (ptr + (p.before e boundary).length - 2) 0 = 13) ↔ e = .crlf := by
  obtain ⟨front, hfront⟩ := before_eq_append e boundary p
  rw [hfront, List.append_assoc] at hrest
  rw [hfront]
  cases e with
  | crlf =>
    have h1 := getD_of_drop hrest (front.length + 3)
    have h2 := getD_of_drop hrest (front.length + 2)
    rw [List.getD_append_right _ _ _ _ (by omega)] at h1 h2
    simp only [List.length_append, LineEnd.bytes, List.length_cons, List.length_nil]
    rw [show ptr + (front.length + 4) - 1 = ptr + (front.length + 3) by omega,
      show ptr + (front.length + 4) - 2 = ptr + (front.length + 2) by omega, h1, h2]
    simp [LineEnd.bytes]
  | lf =>
    have h2 := getD_of_drop hrest front.length
    rw [List.getD_append_right _ _ _ _ (by omega)] at h2
    simp only [List.length_append, LineEnd.bytes, List.length_cons, List.length_nil]
    rw [show ptr + (front.length + 2) - 2 = ptr + front.length by omega, h2]
    simp [LineEnd.bytes]

theorem length_before (e : LineEnd) (boundary : List UInt8) (p : Part) :
    (p.before e boundary).length =
      2 + boundary.length + e.bytes.length + ((p.header e).length + e.bytes.length) := by
  simp only [Part.before, delimiter, List.length_append, List.length_cons, List.length_nil]
  omega

/-- At a part the loop calls the function as soon as it finds a delimiter behind the header. -/
theorem turn_part {k : Nat} (hrest : mem.drop ptr = p.before e boundary ++ more)
    (hsize : ptr + (p.before e boundary).length < size)
    (hk : formDataBoundaryFindNext boundary (size - (ptr + (p.before e boundary).length)) more = some k) :
    turn boundary mem size ptr =
      (some ⟨cstr (p.disposition.take 100), more.take (k - correction e).toNat, k - correction e⟩,
        ((ptr + (p.before e boundary).length : Nat) + ((k : Int) - correction e)).toNat) := by
  have hlen := length_before e boundary p
  have hpos : 0 < e.bytes.length := by cases e <;> decide
  have hcmp : fromDataBoundaryCmp boundary (mem.drop ptr) = some (2 + boundary.length + e.bytes.length) := by
    rw [hrest, Part.before, List.append_assoc, List.append_assoc]
    exact fromDataBoundaryCmp_delimiter
  have hheader : mem.drop (ptr + (2 + boundary.length + e.bytes.length)) =
      p.header e ++ (e.bytes ++ more) := by
    rw [← List.drop_drop, hrest]
    have hfront : p.before e boundary ++ more =
        (delimiter boundary ++ e.bytes) ++ (p.header e ++ (e.bytes ++ more)) := by
      simp only [Part.before, List.append_assoc]
    rw [hfront]
    exact List.drop_left' (by simp [delimiter]; omega)
  have hskip : skipHeader (size - (ptr + (2 + boundary.length + e.bytes.length)))
      (p.header e ++ (e.bytes ++ more)) = (p.header e).length + e.bytes.length :=
    skipHeader_header (by omega)
  have hplace : ptr + (2 + boundary.length + e.bytes.length) + ((p.header e).length + e.bytes.length) =
      ptr + (p.before e boundary).length := by omega
  have hmore : mem.drop (ptr + (p.before e boundary).length) = more := by
    rw [← List.drop_drop, hrest, List.drop_left]
  have hret : (if mem.getD (ptr + (p.before e boundary).length - 1) 0 = 10 ∧
      mem.getD (ptr + (p.before e boundary).length - 2) 0 = 13 then (k : Int) - 2 else k) =
      k - correction e := by
    rw [if_congr (lineEnd_before hrest) rfl rfl]
    cases e
    · exact if_pos rfl
    · exact (if_neg (by decide)).trans (Int.sub_zero _).symm
  simp only [turn, hcmp, hheader, hskip, hplace, hmore, hk, hret, formDataName_header]
  rw [if_pos (by omega), if_pos hsize]

end ProgrammingPath.Multipart
