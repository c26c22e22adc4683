import ProgrammingPath.Lib.Memory
import ProgrammingPath.Service.ProxyBody

/-!
# Three ways to replace a text

`str_replace` counts first and allocates then, `str_replace_r` copies into a buffer of the caller, and `str_replace_`
replaces in place. All three keep the lengths of the two texts in an `int`, and the places they write to are followed
wherever they are. As long as an `int` can tell the lengths all three are the scan of `strReplace`.
-/

namespace ProgrammingPath.Proxy

open ProgrammingPath.Lib

/-! ## Lengths and memory -/

/-- `int n = strlen(...)`. -/
def intOf (n : Nat) : Int := Int.bmod n 4294967296

/-- What a function with a `size_t` parameter makes of an `int`. -/
def toSize (i : Int) : Nat := (i % 18446744073709551616).toNat

/-- `strncmp(p, lit, n) == 0`, for two strings. -/
def strncmpEq : List UInt8 → List UInt8 → Nat → Bool
  | _, _, 0 => true
  | [], [], _ + 1 => true
  | a :: p, c :: lit, n + 1 => a == c && strncmpEq p lit n
  | _, _, _ + 1 => false

/-- The memory a function writes to, and where it wrote: offset and number of bytes. -/
structure Dest where
  mem : Mem
  log : List (Int × Nat)

def Dest.store (d : Dest) (off : Int) (bs : List UInt8) : Dest :=
  ⟨d.mem.write off bs, d.log ++ [(off, bs.length)]⟩

/-- The byte was written. -/
def Dest.Covers (d : Dest) (i : Int) : Prop := ∃ w ∈ d.log, w.1 ≤ i ∧ i < w.1 + w.2

/-! ## `str_replace` -/

/-- The first loop of `str_replace`, for at most `fuel` turns; `result_len` is a `size_t`. -/
def countLoop (str src : List UInt8) (lenOld lenDst : Int) : Nat → Int → Nat → Option Nat
  | 0, _, _ => none
  | fuel + 1, pos, resultLen =>
    if pos < str.length then
      if pos < 0 then none
      else if strncmpEq (str.drop pos.toNat) src (toSize lenOld) then
        countLoop str src lenOld lenDst fuel (pos + lenOld)
          ((resultLen + toSize lenDst) % 18446744073709551616)
      else countLoop str src lenOld lenDst fuel (pos + 1) ((resultLen + 1) % 18446744073709551616)
    else some resultLen

/-- The second loop. `strcpy` writes the NUL of `dst`, too. -/
def fillLoop (str src dst : List UInt8) (lenOld lenDst : Int) :
    Nat → Int → Int → Dest → Option (Int × Dest)
  | 0, _, _, _ => none
  | fuel + 1, pos, pdst, d =>
    if pos < str.length then
      if pos < 0 then none
      else if strncmpEq (str.drop pos.toNat) src (toSize lenOld) then
        fillLoop str src dst lenOld lenDst fuel (pos + lenOld) (pdst + lenDst)
          (d.store pdst (dst ++ [0]))
      else
        fillLoop str src dst lenOld lenDst fuel (pos + 1) (pdst + 1)
          (d.store pdst ((str.drop pos.toNat).take 1))
    else some (pdst, d)

/-- `str_replace`: the number of bytes that were counted, and the memory of `malloc` with what the second loop and the last
line wrote there, or `NULL`. -/
def strReplaceAlloc (fuel : Nat) (str src dst : List UInt8) (alloc : Bool) :
    Option (Option (Nat × Dest)) := do
  let lenOld := intOf src.length
  let lenDst := intOf dst.length
  let resultLen ← countLoop str src lenOld lenDst fuel 0 1
  if alloc then do
    let filled ← fillLoop str src dst lenOld lenDst fuel 0 0 ⟨Mem.zero, []⟩
    some (some (resultLen, filled.2.store filled.1 [0]))
  else
    some none

/-! ## `str_replace_r` -/

/-- The loop of `str_replace_r`; positions in `strto` are offsets, and `pto_end` is `tolen`. -/
def boundedLoop (src strold strnew : List UInt8) (oldlen newlen tolen : Int) :
    Nat → Int → Int → Dest → Option (Int × Dest)
  | 0, _, _, _ => none
  | fuel + 1, psrc, pto, d =>
    if psrc < src.length ∧ pto < tolen then
      if psrc < 0 then none
      else if strncmpEq (src.drop psrc.toNat) strold (toSize oldlen) then
        if tolen ≤ pto + newlen then some (pto, d)
        else
          boundedLoop src strold strnew oldlen newlen tolen fuel (psrc + oldlen) (pto + newlen)
            (d.store pto (strnew ++ [0]))
      else
        boundedLoop src strold strnew oldlen newlen tolen fuel (psrc + 1) (pto + 1)
          (d.store pto ((src.drop psrc.toNat).take 1))
    else some (pto, d)

/-- `str_replace_r`: `*pnewlen` and the buffer. No result when the assertion fails. -/
def strReplaceR (fuel : Nat) (src strold strnew : List UInt8) (strto : Mem) (tolen : Int) :
    Option (Int × Dest) := do
  let (pto, d) ← boundedLoop src strold strnew (intOf strold.length) (intOf strnew.length) tolen fuel 0 0
    ⟨strto, []⟩
  if tolen < pto then none
  else
    let pto := if pto = tolen then pto - 1 else pto
    some (pto, d.store pto [0])

/-! ## `str_replace_` -/

/-- `memcpy` into a list. -/
def overwrite (mem : List UInt8) (off : Nat) (bs : List UInt8) : List UInt8 :=
  mem.take off ++ bs ++ mem.drop (off + bs.length)

/-- The loop of `str_replace_`; no result when it leaves the memory. -/
def inPlaceLoop (strold strnew : List UInt8) (stroldlen : Int) : Nat → List UInt8 → Int → Option (List UInt8)
  | 0, _, _ => none
  | fuel + 1, mem, ptr =>
    if ptr < 0 then none
    else
      match mem[ptr.toNat]? with
      | none => none
      | some b =>
        if b = 0 then some mem
        else if strncmpEq (cstr (mem.drop ptr.toNat)) strold (toSize stroldlen) then
          inPlaceLoop strold strnew stroldlen fuel
            (overwrite mem ptr.toNat (strnew.take (toSize stroldlen))) (ptr + stroldlen)
        else inPlaceLoop strold strnew stroldlen fuel mem (ptr + 1)

/-- `str_replace_`. -/
def strReplace_ (fuel : Nat) (mem strold strnew : List UInt8) : Option (Int × List UInt8) :=
  let stroldlen := intOf strold.length
  if toSize stroldlen ≠ strnew.length then some (-1, mem)
  else (inPlaceLoop strold strnew stroldlen fuel mem 0).map fun mem => (0, mem)

/-! ## Where an `int` can tell the lengths -/

theorem intOf_of_lt {n : Nat} (h : n < 2 ^ 31) : intOf n = n := Int.bmod_eq_of_le (by omega) (by omega)

theorem toSize_natCast {n : Nat} (h : n < 2 ^ 31) : toSize n = n := by
  rw [toSize]
  omega

theorem strncmpEq_iff {p lit : List UInt8} : strncmpEq p lit lit.length = true ↔ lit <+: p := by
  induction lit generalizing p with
  | nil => cases p <;> exact iff_of_true rfl List.nil_prefix
  | cons c lit ih =>
    cases p with
    | nil => simp [strncmpEq]
    | cons a p =>
      rw [List.length_cons, strncmpEq, Bool.and_eq_true, beq_iff_eq, ih, List.cons_prefix_cons,
        @eq_comm _ a]

theorem strncmpEq_append (lit p : List UInt8) : strncmpEq (lit ++ p) lit lit.length = true :=
  strncmpEq_iff.mpr (List.prefix_append lit p)

theorem not_strncmpEq {p lit : List UInt8} (h : ¬lit <+: p) : ¬strncmpEq p lit lit.length = true :=
  fun hmatch => h (strncmpEq_iff.mp hmatch)

variable {str old new rest out done : List UInt8} {k fuel : Nat}

/-- The pointer is at `rest`. -/
structure At (str done rest : List UInt8) : Prop where
  eq : str = done ++ rest

theorem At.drop (h : At str done rest) : str.drop (done.length : Int).toNat = rest := by
  rw [h.eq, Int.toNat_natCast, List.drop_left]

theorem At.not_lt (h : At str done []) : ¬(done.length : Int) < str.length := by
  rw [h.eq, List.append_nil]
  omega

theorem At.lt {b : UInt8} (h : At str done (b :: rest)) : (done.length : Int) < str.length := by
  rw [h.eq, List.length_append, List.length_cons]
  omega

theorem At.lt_append (h : At str done (old ++ rest)) (hold : old ≠ []) :
    (done.length : Int) < str.length := by
  have hpos := List.length_pos_iff.mpr hold
  rw [h.eq, List.length_append, List.length_append]
  omega

theorem At.found (h : At str done (old ++ rest)) : At str (done ++ old) rest :=
  ⟨by rw [h.eq, List.append_assoc]⟩

theorem At.other {b : UInt8} (h : At str done (b :: rest)) : At str (done ++ [b]) rest :=
  ⟨by rw [h.eq, List.append_assoc, List.singleton_append]⟩

/-! ## Counting -/

/-- The first loop counts what comes out. -/
theorem countLoop_eq (hold : old ≠ []) (hlo : old.length < 2 ^ 31) (hln : new.length < 2 ^ 31)
    (h : Replaced old new k rest out) {n : Nat} (hat : At str done rest) (hfuel : rest.length < fuel)
    (hsize : n + out.length < 2 ^ 64) :
    countLoop str old old.length new.length fuel done.length n = some (n + out.length) := by
  induction h generalizing done fuel n with
  | nil =>
    obtain ⟨fuel, rfl⟩ := Nat.exists_eq_succ_of_ne_zero (Nat.ne_zero_of_lt hfuel)
    rw [countLoop, if_neg hat.not_lt]
    rfl
  | @found k l l' _ ih =>
    obtain ⟨fuel, rfl⟩ := Nat.exists_eq_succ_of_ne_zero (Nat.ne_zero_of_lt hfuel)
    have hpos := List.length_pos_iff.mpr hold
    rw [List.length_append] at hfuel hsize
    have hrec : countLoop str old old.length new.length fuel (done ++ old).length (n + new.length) =
        some (n + new.length + l'.length) := ih hat.found (by omega) (by omega)
    rw [List.length_append, Int.natCast_add] at hrec
    rw [countLoop, if_pos (hat.lt_append hold), if_neg (by omega), hat.drop, toSize_natCast hlo,
      toSize_natCast hln, if_pos (strncmpEq_append old l), Nat.mod_eq_of_lt (by omega), hrec, List.length_append,
      Nat.add_assoc]
  | @other k b l l' hnot _ ih =>
    obtain ⟨fuel, rfl⟩ := Nat.exists_eq_succ_of_ne_zero (Nat.ne_zero_of_lt hfuel)
    rw [List.length_cons] at hfuel hsize
    have hrec : countLoop str old old.length new.length fuel (done ++ [b]).length (n + 1) =
        some (n + 1 + l'.length) := ih hat.other (by omega) (by omega)
    rw [List.length_append, List.length_singleton, Int.natCast_add, Int.natCast_one] at hrec
    rw [countLoop, if_pos hat.lt, if_neg (by omega), hat.drop, toSize_natCast hlo, if_neg (not_strncmpEq hnot),
      Nat.mod_eq_of_lt (by omega), hrec, List.length_cons]
    congr 1
    omega

/-! ## Writing -/

/-- The text that was written so far; at most the NUL behind it was written, too. -/
structure Filled (d : Dest) (text : List UInt8) : Prop where
  bytes_eq : d.mem.bytes 0 text.length = text
  covered : ∀ i : Int, 0 ≤ i → i < text.length → d.Covers i
  inside : ∀ i, d.Covers i → 0 ≤ i ∧ i ≤ text.length

theorem Dest.covers_store {d : Dest} {off i : Int} {bs : List UInt8} :
    (d.store off bs).Covers i ↔ d.Covers i ∨ off ≤ i ∧ i < off + bs.length := by
  simp [Dest.Covers, Dest.store, or_and_right, exists_or]

theorem filled_nil (m : Mem) : Filled ⟨m, []⟩ [] where
  bytes_eq := rfl
  covered := by
    intro i h0 hlt
    simp at hlt
    omega
  inside := by
    rintro i ⟨w, hw, -⟩
    cases hw

/-- More text, with or without its NUL. -/
theorem Filled.store {d : Dest} {text : List UInt8} (h : Filled d text) (bs nul : List UInt8)
    (hnul : nul.length ≤ 1) : Filled (d.store text.length (bs ++ nul)) (text ++ bs) where
  bytes_eq := by
    have hwhole : (d.mem.write text.length (bs ++ nul)).bytes 0 (text.length + (bs ++ nul).length) =
        text ++ (bs ++ nul) := by
      rw [Mem.bytes_write_append _ (by omega), h.bytes_eq]
    have htake := congrArg (List.take (text.length + bs.length)) hwhole
    rw [Mem.take_bytes _ (by rw [List.length_append]; omega), ← List.append_assoc,
      ← List.length_append, List.take_left] at htake
    exact htake
  covered := by
    intro i h0 hlt
    rw [List.length_append] at hlt
    rw [Dest.covers_store]
    by_cases hi : i < text.length
    · exact Or.inl (h.covered i h0 hi)
    · right
      rw [List.length_append]
      omega
  inside := by
    intro i hi
    rw [Dest.covers_store, List.length_append] at hi
    rw [List.length_append]
    rcases hi with hi | hi
    · have := h.inside i hi
      omega
    · omega

/-- The second loop writes what comes out. -/
theorem fillLoop_eq (hold : old ≠ []) (hlo : old.length < 2 ^ 31) (h : Replaced old new k rest out)
    {d : Dest} {text : List UInt8} (hat : At str done rest) (hfuel : rest.length < fuel)
    (hd : Filled d text) :
    ∃ d', fillLoop str old new old.length new.length fuel done.length text.length d =
      some (((text ++ out).length : Int), d') ∧ Filled d' (text ++ out) := by
  induction h generalizing done fuel text d with
  | nil =>
    obtain ⟨fuel, rfl⟩ := Nat.exists_eq_succ_of_ne_zero (Nat.ne_zero_of_lt hfuel)
    rw [fillLoop, if_neg hat.not_lt, List.append_nil]
    exact ⟨d, rfl, hd⟩
  | @found k l l' _ ih =>
    obtain ⟨fuel, rfl⟩ := Nat.exists_eq_succ_of_ne_zero (Nat.ne_zero_of_lt hfuel)
    have hpos := List.length_pos_iff.mpr hold
    rw [List.length_append] at hfuel
    have hlt : l.length < fuel := by omega
    obtain ⟨d', hloop, hfilled⟩ := ih hat.found hlt (hd.store new [0] (Nat.le_refl 1))
    rw [List.length_append, Int.natCast_add, List.length_append, Int.natCast_add,
      List.append_assoc] at hloop
    rw [List.append_assoc] at hfilled
    refine ⟨d', ?_, hfilled⟩
    rw [fillLoop, if_pos (hat.lt_append hold), if_neg (by omega), hat.drop, toSize_natCast hlo,
      if_pos (strncmpEq_append old l), hloop]
  | @other k b l l' hnot _ ih =>
    obtain ⟨fuel, rfl⟩ := Nat.exists_eq_succ_of_ne_zero (Nat.ne_zero_of_lt hfuel)
    rw [List.length_cons] at hfuel
    have hlt : l.length < fuel := by omega
    obtain ⟨d', hloop, hfilled⟩ := ih hat.other hlt (hd.store [b] [] (Nat.zero_le 1))
    rw [List.append_nil, List.length_append, List.length_singleton, Int.natCast_add,
      List.length_append, List.length_singleton, Int.natCast_add, Int.natCast_one,
      List.append_assoc] at hloop
    rw [List.append_assoc] at hfilled
    refine ⟨d', ?_, hfilled⟩
    rw [fillLoop, if_pos hat.lt, if_neg (by omega), hat.drop, toSize_natCast hlo, if_neg (not_strncmpEq hnot)]
    exact hloop

/-! ## Copying into a buffer -/

/-- What `str_replace_r` has written stays in the buffer, and is a beginning of what comes out; it is all of it if that is
shorter than the buffer. -/
structure Bounded (d : Dest) (text whole : List UInt8) (tolen : Int) : Prop extends Filled d text where
  room : (text.length : Int) ≤ tolen
  within : ∀ i, d.Covers i → i < tolen
  isPrefix : text <+: whole
  complete : (whole.length : Int) < tolen → text = whole

/-- Where the loop stops, nothing is left or there is no room for what is left. -/
theorem Filled.bounded {d : Dest} {text : List UInt8} {tolen : Int} (hd : Filled d text)
    (hroom : text.length ≤ tolen) (hwithin : ∀ i, d.Covers i → i < tolen)
    (hstop : out = [] ∨ tolen ≤ (text ++ out).length) : Bounded d text (text ++ out) tolen where
  toFilled := hd
  room := hroom
  within := hwithin
  isPrefix := List.prefix_append text out
  complete := by
    intro hlt
    rcases hstop with rfl | hle
    · rw [List.append_nil]
    · omega

/-- The loop stops with a beginning of what comes out. -/
theorem boundedLoop_eq (hold : old ≠ []) (hlo : old.length < 2 ^ 31) (h : Replaced old new k rest out)
    {d : Dest} {text : List UInt8} {tolen : Int} (hat : At str done rest) (hfuel : rest.length < fuel)
    (hd : Filled d text) (hroom : text.length ≤ tolen) (hwithin : ∀ i, d.Covers i → i < tolen) :
    ∃ d' text', boundedLoop str old new old.length new.length tolen fuel done.length text.length d =
      some ((text'.length : Int), d') ∧ Bounded d' text' (text ++ out) tolen := by
  induction h generalizing done fuel text d with
  | nil =>
    obtain ⟨fuel, rfl⟩ := Nat.exists_eq_succ_of_ne_zero (Nat.ne_zero_of_lt hfuel)
    refine ⟨d, text, ?_, hd.bounded hroom hwithin (Or.inl rfl)⟩
    rw [boundedLoop, if_neg (fun hand => hat.not_lt hand.1)]
  | @found k l l' _ ih =>
    obtain ⟨fuel, rfl⟩ := Nat.exists_eq_succ_of_ne_zero (Nat.ne_zero_of_lt hfuel)
    have hpos := List.length_pos_iff.mpr hold
    rw [List.length_append] at hfuel
    have hlt : l.length < fuel := by omega
    by_cases hfull : (text.length : Int) < tolen
    · by_cases hbreak : tolen ≤ text.length + (new.length : Int)
      · -- no room for the new text and its NUL
        refine ⟨d, text, ?_, hd.bounded hroom hwithin (Or.inr ?_)⟩
        · rw [boundedLoop, if_pos ⟨hat.lt_append hold, hfull⟩, if_neg (by omega), hat.drop,
            toSize_natCast hlo, if_pos (strncmpEq_append old l), if_pos hbreak]
        · simp only [List.length_append]
          omega
      · have hlen : ((text ++ new).length : Int) = text.length + new.length := by
          rw [List.length_append, Int.natCast_add]
        have hwithin' : ∀ i, (d.store text.length (new ++ [0])).Covers i → i < tolen := by
          intro i hi
          rw [Dest.covers_store, List.length_append, List.length_singleton] at hi
          rcases hi with hi | hi
          · exact hwithin i hi
          · omega
        obtain ⟨d', text', hloop, hbounded⟩ := ih hat.found hlt
          (hd.store new [0] (Nat.le_refl 1)) (by omega) hwithin'
        rw [List.length_append, Int.natCast_add, hlen] at hloop
        rw [List.append_assoc] at hbounded
        refine ⟨d', text', ?_, hbounded⟩
        rw [boundedLoop, if_pos ⟨hat.lt_append hold, hfull⟩, if_neg (by omega), hat.drop,
          toSize_natCast hlo, if_pos (strncmpEq_append old l), if_neg hbreak, hloop]
    · refine ⟨d, text, ?_, hd.bounded hroom hwithin (Or.inr ?_)⟩
      · rw [boundedLoop, if_neg fun hand => hfull hand.2]
      · rw [List.length_append]
        omega
  | @other k b l l' hnot _ ih =>
    obtain ⟨fuel, rfl⟩ := Nat.exists_eq_succ_of_ne_zero (Nat.ne_zero_of_lt hfuel)
    rw [List.length_cons] at hfuel
    have hlt : l.length < fuel := by omega
    by_cases hfull : (text.length : Int) < tolen
    · have hlen : ((text ++ [b]).length : Int) = text.length + 1 := by
        rw [List.length_append, List.length_singleton, Int.natCast_add, Int.natCast_one]
      have hwithin' : ∀ i, (d.store text.length ([b] ++ [])).Covers i → i < tolen := by
        intro i hi
        rw [Dest.covers_store, List.append_nil, List.length_singleton] at hi
        rcases hi with hi | hi
        · exact hwithin i hi
        · omega
      obtain ⟨d', text', hloop, hbounded⟩ := ih hat.other hlt
        (hd.store [b] [] (Nat.zero_le 1)) (by omega) hwithin'
      rw [List.length_append, List.length_singleton, Int.natCast_add, Int.natCast_one, hlen] at hloop
      rw [List.append_assoc] at hbounded
      refine ⟨d', text', ?_, hbounded⟩
      rw [boundedLoop, if_pos ⟨hat.lt, hfull⟩, if_neg (by omega), hat.drop, toSize_natCast hlo,
        if_neg (not_strncmpEq hnot)]
      exact hloop
    · refine ⟨d, text, ?_, hd.bounded hroom hwithin (Or.inr ?_)⟩
      · rw [boundedLoop, if_neg fun hand => hfull hand.2]
      · rw [List.length_append]
        omega

/-! ## In place -/

theorem overwrite_append {mid bs tail : List UInt8} (hlen : bs.length = mid.length) :
    overwrite (done ++ (mid ++ tail)) done.length bs = (done ++ bs) ++ tail := by
  rw [overwrite, List.take_left, hlen, ← List.append_assoc done mid tail, ← List.length_append,
    List.drop_left]

/-- A turn of the loop before the end of the string. -/
theorem inPlaceLoop_succ {len : Int} (hne : rest ≠ []) (hrest : 0 ∉ rest) (beyond : List UInt8) :
    inPlaceLoop old new len (fuel + 1) (done ++ (rest ++ 0 :: beyond)) done.length =
      if strncmpEq rest old (toSize len) then
        inPlaceLoop old new len fuel
          (overwrite (done ++ (rest ++ 0 :: beyond)) done.length (new.take (toSize len)))
          (done.length + len)
      else inPlaceLoop old new len fuel (done ++ (rest ++ 0 :: beyond)) (done.length + 1) := by
  obtain ⟨b, tail, rfl⟩ := List.exists_cons_of_ne_nil hne
  have hb : ¬b = 0 := fun hb => hrest (hb ▸ List.mem_cons_self)
  have hget : (done ++ (b :: tail ++ 0 :: beyond))[done.length]? = some b := by
    rw [List.getElem?_append_right (Nat.le_refl _), Nat.sub_self]
    rfl
  have hcstr : cstr ((done ++ (b :: tail ++ 0 :: beyond)).drop done.length) = b :: tail := by
    rw [List.drop_left, cstr_append hrest, cstr, List.takeWhile_cons_of_neg (by decide),
      List.append_nil]
  rw [inPlaceLoop, if_neg (by omega), Int.toNat_natCast, hget]
  simp only [if_neg hb, hcstr]

/-- The loop leaves what comes out, and what is behind the string as it was. -/
theorem inPlaceLoop_eq (hold : old ≠ []) (hlo : old.length < 2 ^ 31) (hsame : old.length = new.length)
    (h : Replaced old new k rest out) (hrest : 0 ∉ rest) (hfuel : rest.length < fuel)
    (beyond : List UInt8) :
    inPlaceLoop old new old.length fuel (done ++ (rest ++ 0 :: beyond)) done.length =
      some (done ++ (out ++ 0 :: beyond)) := by
  induction h generalizing done fuel with
  | nil =>
    obtain ⟨fuel, rfl⟩ := Nat.exists_eq_succ_of_ne_zero (Nat.ne_zero_of_lt hfuel)
    rw [inPlaceLoop, if_neg (by omega), Int.toNat_natCast, List.getElem?_append_right (Nat.le_refl _),
      Nat.sub_self]
    rfl
  | @found k l l' _ ih =>
    obtain ⟨fuel, rfl⟩ := Nat.exists_eq_succ_of_ne_zero (Nat.ne_zero_of_lt hfuel)
    have hpos := List.length_pos_iff.mpr hold
    rw [List.length_append] at hfuel
    have hl : 0 ∉ l := fun hmem => hrest (List.mem_append_right _ hmem)
    have hlt : l.length < fuel := by omega
    have hrec : inPlaceLoop old new old.length fuel ((done ++ new) ++ (l ++ 0 :: beyond))
        (done ++ new).length = some ((done ++ new) ++ (l' ++ 0 :: beyond)) := ih hl hlt
    have hwrite : overwrite (done ++ (old ++ (l ++ 0 :: beyond))) done.length new =
        (done ++ new) ++ (l ++ 0 :: beyond) := overwrite_append hsame.symm
    rw [List.length_append, Int.natCast_add, ← hsame] at hrec
    rw [inPlaceLoop_succ (List.append_ne_nil_of_left_ne_nil hold l) hrest, toSize_natCast hlo,
      if_pos (strncmpEq_append old l), List.take_of_length_le (Nat.le_of_eq hsame.symm), List.append_assoc, hwrite,
      hrec, List.append_assoc, List.append_assoc]
  | @other k b l l' hnot _ ih =>
    obtain ⟨fuel, rfl⟩ := Nat.exists_eq_succ_of_ne_zero (Nat.ne_zero_of_lt hfuel)
    rw [List.length_cons] at hfuel
    have hl : 0 ∉ l := fun hmem => hrest (List.mem_cons_of_mem _ hmem)
    have hlt : l.length < fuel := by omega
    have hrec : inPlaceLoop old new old.length fuel ((done ++ [b]) ++ (l ++ 0 :: beyond))
        (done ++ [b]).length = some ((done ++ [b]) ++ (l' ++ 0 :: beyond)) := ih hl hlt
    rw [List.append_assoc, List.append_assoc, List.length_append, List.length_singleton,
      Int.natCast_add, Int.natCast_one] at hrec
    rw [inPlaceLoop_succ (List.cons_ne_nil b l) hrest, toSize_natCast hlo, if_neg (not_strncmpEq hnot)]
    exact hrec

/-! ## What a caller gets -/

/-- The bytes that were counted are those that are written, and they are the result with its NUL. -/
def AllocRight (s old new result : List UInt8) : Prop :=
  ∃ fuel d, strReplaceAlloc fuel s old new true = some (some (result.length + 1, d)) ∧
    d.mem.bytes 0 (result.length + 1) = result ++ [0] ∧
    ∀ i : Int, d.Covers i ↔ 0 ≤ i ∧ i < (result.length + 1 : Nat)

/-- Nothing outside the buffer is written, and the string that is left in it has the length that is told and is a
beginning of the result, all of it if that is shorter than the buffer. -/
def BoundedRight (s old new result : List UInt8) (strto : Mem) (tolen : Int) : Prop :=
  ∃ fuel d text, strReplaceR fuel s old new strto tolen = some ((text.length : Int), d) ∧
    d.mem.bytes 0 (text.length + 1) = text ++ [0] ∧ 0 ∉ text ∧ (text.length : Int) < tolen ∧
    text <+: result ∧ ((result.length : Int) < tolen → text = result) ∧
    ∀ i, d.Covers i → 0 ≤ i ∧ i < tolen

/-- The result is where the string was, and what is behind it is as it was. -/
def InPlaceRight (s old new result : List UInt8) : Prop :=
  ∀ beyond, ∃ fuel, strReplace_ fuel (s ++ 0 :: beyond) old new = some (0, result ++ 0 :: beyond)

section Right

variable {s result : List UInt8} (hold : old ≠ []) (hlo : old.length < 2 ^ 31)

include hold hlo

theorem allocRight (hln : new.length < 2 ^ 31) (h : Replaced old new k s result)
    (hsize : result.length + 1 < 2 ^ 64) : AllocRight s old new result := by
  have hat : At s [] s := ⟨rfl⟩
  have hfuel : s.length < s.length + 1 := Nat.lt_succ_self _
  have hcount : countLoop s old old.length new.length (s.length + 1) 0 1 = some (1 + result.length) :=
    countLoop_eq hold hlo hln h hat hfuel (by omega)
  obtain ⟨d, hfill, hfilled⟩ := fillLoop_eq hold hlo h hat hfuel (filled_nil Mem.zero)
  rw [List.nil_append] at hfill hfilled
  have hfill' : fillLoop s old new old.length new.length (s.length + 1) 0 0 ⟨Mem.zero, []⟩ =
      some ((result.length : Int), d) := hfill
  refine ⟨s.length + 1, d.store result.length [0], ?_, ?_, ?_⟩
  · simp only [strReplaceAlloc, intOf_of_lt hlo, intOf_of_lt hln, hcount, hfill', if_true,
      Option.bind_eq_bind, Option.bind_some]
    rw [Nat.add_comm 1]
  · show (d.mem.write result.length [0]).bytes 0 (result.length + [(0 : UInt8)].length) = _
    rw [Mem.bytes_write_append _ (by omega), hfilled.bytes_eq]
  · intro i
    rw [Dest.covers_store, List.length_singleton]
    constructor
    · rintro (hi | hi)
      · have := hfilled.inside i hi
        omega
      · omega
    · rintro ⟨h0, hlt⟩
      by_cases hi : i < result.length
      · exact Or.inl (hfilled.covered i h0 hi)
      · right
        omega

theorem boundedRight (hln : new.length < 2 ^ 31) (h : Replaced old new k s result)
    (hnul : 0 ∉ result) (strto : Mem) {tolen : Int} (htolen : 1 ≤ tolen) :
    BoundedRight s old new result strto tolen := by
  have hat : At s [] s := ⟨rfl⟩
  have hnone : ∀ i, (⟨strto, []⟩ : Dest).Covers i → i < tolen := by
    rintro i ⟨w, hw, -⟩
    cases hw
  have hempty : (([] : List UInt8).length : Int) ≤ tolen := by
    rw [List.length_nil]
    omega
  obtain ⟨d, text, hloop, hd⟩ := boundedLoop_eq hold hlo h hat (Nat.lt_succ_self _)
    (filled_nil strto) hempty hnone
  rw [List.nil_append] at hd
  have hroom := hd.room
  -- the NUL goes behind the text, or over its last byte when the buffer is full
  obtain ⟨m, hm, hpto, hlt, hall⟩ : ∃ m : Nat, m ≤ text.length ∧
      (if (text.length : Int) = tolen then (text.length : Int) - 1 else text.length) = m ∧
      (m : Int) < tolen ∧ ((text.length : Int) < tolen → m = text.length) := by
    by_cases hfull : (text.length : Int) = tolen
    · refine ⟨text.length - 1, Nat.sub_le _ _, ?_, ?_, ?_⟩
      · rw [if_pos hfull]
        omega
      · omega
      · omega
    · exact ⟨text.length, Nat.le_refl _, if_neg hfull, by omega, fun _ => rfl⟩
  have htake : text.take m <+: result := (List.take_prefix m text).trans hd.isPrefix
  have hlen : (text.take m).length = m := by
    rw [List.length_take]
    omega
  refine ⟨s.length + 1, d.store m [0], text.take m, ?_, ?_, ?_, ?_, htake, ?_, ?_⟩
  · have hloop' : boundedLoop s old new old.length new.length tolen (s.length + 1) 0 0 ⟨strto, []⟩ =
        some ((text.length : Int), d) := hloop
    simp only [strReplaceR, intOf_of_lt hlo, intOf_of_lt hln, hloop', Option.bind_eq_bind,
      Option.bind_some, if_neg (Int.not_lt.mpr hroom), hpto, hlen]
  · rw [hlen]
    show (d.mem.write m [0]).bytes 0 (m + [(0 : UInt8)].length) = _
    rw [Mem.bytes_write_append _ (by omega), ← Mem.take_bytes d.mem hm, hd.bytes_eq]
  · exact fun hmem => hnul (htake.subset hmem)
  · rwa [hlen]
  · intro hshort
    have heq := hd.complete hshort
    rw [hall (by rw [heq]; exact hshort), List.take_length, heq]
  · intro i hi
    rw [Dest.covers_store, List.length_singleton] at hi
    rcases hi with hi | hi
    · exact ⟨(hd.inside i hi).1, hd.within i hi⟩
    · omega

omit hold in
theorem inPlaceRight (hold : old ≠ []) (hsame : old.length = new.length)
    (h : Replaced old new k s result) (hs : 0 ∉ s) : InPlaceRight s old new result := by
  intro beyond
  have hloop : inPlaceLoop old new old.length (s.length + 1) ([] ++ (s ++ 0 :: beyond))
      ([] : List UInt8).length = some ([] ++ (result ++ 0 :: beyond)) :=
    inPlaceLoop_eq hold hlo hsame h hs (Nat.lt_succ_self _) beyond
  refine ⟨s.length + 1, ?_⟩
  rw [strReplace_, intOf_of_lt hlo, toSize_natCast hlo, if_neg (not_not.mpr hsame)]
  exact congrArg (Option.map fun mem => (0, mem)) hloop

end Right

/-- **The three functions agree.** For texts whose lengths an `int` can tell, all three leave what `strReplace` says, the
replacement from left to right: `str_replace` if its size fits into a `size_t`, `str_replace_r` as much of it as there is
room for, and `str_replace_` if both texts have the same length. -/
theorem strReplace_agree {s : List UInt8} (hs : 0 ∉ s) (hnew : 0 ∉ new) (hold : old ≠ [])
    (hlo : old.length < 2 ^ 31) (hln : new.length < 2 ^ 31) :
    (∃ k, Replaced old new k s (strReplace s old new)) ∧
      ((strReplace s old new).length + 1 < 2 ^ 64 → AllocRight s old new (strReplace s old new)) ∧
      (∀ strto tolen, 1 ≤ tolen → BoundedRight s old new (strReplace s old new) strto tolen) ∧
      (old.length = new.length → InPlaceRight s old new (strReplace s old new)) := by
  obtain ⟨k, h⟩ : ∃ k, Replaced old new k s (strReplace s old new) := strReplace_replaced hold s
  have hnul : 0 ∉ strReplace s old new := fun hmem => (h.mem hmem).elim hs hnew
  exact ⟨⟨k, h⟩, fun hsize => allocRight hold hlo hln h hsize,
    fun strto _ htolen => boundedRight hold hlo hln h hnul strto htolen,
    fun hsame => inPlaceRight hlo hold hsame h hs⟩

/-- `ab` becomes `c` in `abxab`, and a buffer of three bytes has room for `cx`. -/
theorem strReplace_agree_abxab :
    AllocRight [97, 98, 120, 97, 98] [97, 98] [99] [99, 120, 99] ∧
      BoundedRight [97, 98, 120, 97, 98] [97, 98] [99] [99, 120, 99] Mem.zero 3 ∧
      InPlaceRight [97, 98, 120, 97, 98] [97, 98] [99, 99] [99, 99, 120, 99, 99] := by
  have hshort : strReplace [97, 98, 120, 97, 98] [97, 98] [99] = [99, 120, 99] := by decide +kernel
  have hsame : strReplace [97, 98, 120, 97, 98] [97, 98] [99, 99] = [99, 99, 120, 99, 99] := by
    decide +kernel
  obtain ⟨-, halloc, hbounded, -⟩ := @strReplace_agree [97, 98] [99] [97, 98, 120, 97, 98]
    (by decide) (by decide) (by decide) (by decide) (by decide)
  obtain ⟨-, -, -, hplace⟩ := @strReplace_agree [97, 98] [99, 99] [97, 98, 120, 97, 98]
    (by decide) (by decide) (by decide) (by decide) (by decide)
  rw [hshort] at halloc hbounded
  rw [hsame] at hplace
  exact ⟨halloc (by decide), hbounded Mem.zero 3 (by decide), hplace rfl⟩

/-- A text that is too long for an `int`. -/
def longText : List UInt8 := List.replicate 2147483648 98

/-- Its length is taken for a negative number: it seems to fit into one byte, is copied there, and the pointer ends up
before the buffer. -/
theorem not_boundedRight_longText :
    ¬BoundedRight [97] [97] longText (strReplace [97] [97] longText) Mem.zero 1 := by
  rintro ⟨fuel, d, text, hret, -⟩
  have hlen : longText.length = 2147483648 := List.length_replicate
  have hold : intOf [(97 : UInt8)].length = 1 := by decide
  have hnew : intOf longText.length = -2147483648 := by
    rw [hlen]
    decide
  -- the text is copied, and the pointer goes back
  have hturn : ∀ fuel d, boundedLoop [97] [97] longText 1 (-2147483648) 1 (fuel + 1) 0 0 d =
      boundedLoop [97] [97] longText 1 (-2147483648) 1 fuel 1 (-2147483648)
        (d.store 0 (longText ++ [0])) := by
    intro fuel d
    rw [boundedLoop, if_pos (by decide), if_neg (by decide), if_pos (by decide), if_neg (by decide)]
    rfl
  have hend : ∀ fuel d, boundedLoop [97] [97] longText 1 (-2147483648) 1 (fuel + 1) 1 (-2147483648) d =
      some (-2147483648, d) := by
    intro fuel d
    rw [boundedLoop, if_neg (by decide)]
  rw [strReplaceR, hold, hnew] at hret
  match fuel with
  | 0 => cases hret
  | 1 =>
    rw [hturn] at hret
    cases hret
  | fuel + 2 =>
    rw [hturn, hend] at hret
    -- the length that is told is negative
    cases hret

end ProgrammingPath.Proxy
