import ProgrammingPath.Lib.CString
import ProgrammingPath.Lib.Replace
import ProgrammingPath.Rtsp.Number

/-!
# Replacing text in messages

`string_replace` and the two functions of `socket_forward.c` that look into the head of a message.
The first argument of each is a pointer, so they get the memory from it on: `string_replace` compares
without regard to the length it was given, and may find a text that only begins in it.
-/

namespace ProgrammingPath.Forward

open ProgrammingPath.Lib
open ProgrammingPath.Rtsp (scanInt scanInt_digits decimal isDigit isSpace)

/-! ## `string_replace` -/

/-- `sub_filter`: two C strings. -/
structure SubFilter where
  str1 : List UInt8
  str2 : List UInt8
  nul1 : 0 ∉ str1
  nul2 : 0 ∉ str2
  deriving DecidableEq

/-- What a pass over the filters leaves: the bytes written, the memory from the read pointer on, how
many bytes are left, and `flag`. -/
structure Pass where
  written : List UInt8
  mem : List UInt8
  left : Nat
  flag : Bool
  deriving DecidableEq, Repr

/-- The inner loop. A filter that matches moves the pointer, and the filters behind it are tried
there. -/
def filterPass : List SubFilter → List UInt8 → Nat → Pass
  | [], mem, left => ⟨[], mem, left, false⟩
  | f :: fs, mem, left =>
    if f.str1 ≠ [] ∧ f.str1 <+: mem then
      let r := filterPass fs (mem.drop f.str1.length) (left - f.str1.length)
      ⟨f.str2 ++ r.written, r.mem, r.left, true⟩
    else filterPass fs mem left

/-- The outer loop; every turn takes at least one byte, so `fuel` bytes are as many turns as there
can be. -/
def replaceLoop (fs : List SubFilter) : Nat → List UInt8 → Nat → List UInt8
  | 0, _, _ => []
  | fuel + 1, mem, left =>
    if left = 0 then []
    else if (filterPass fs mem left).flag then
      (filterPass fs mem left).written ++
        replaceLoop fs fuel (filterPass fs mem left).mem (filterPass fs mem left).left
    else
      match mem with
      | b :: rest => b :: replaceLoop fs fuel rest (left - 1)
      | [] => []

theorem replaceLoop_succ (fs : List SubFilter) (fuel : Nat) (mem : List UInt8) {left : Nat}
    (hleft : left ≠ 0) :
    replaceLoop fs (fuel + 1) mem left =
      if (filterPass fs mem left).flag then
        (filterPass fs mem left).written ++
          replaceLoop fs fuel (filterPass fs mem left).mem (filterPass fs mem left).left
      else
        match mem with
        | b :: rest => b :: replaceLoop fs fuel rest (left - 1)
        | [] => [] := by
  cases mem <;> rw [replaceLoop, if_neg hleft]

theorem replaceLoop_zero (fs : List SubFilter) (fuel : Nat) (mem : List UInt8) :
    replaceLoop fs fuel mem 0 = [] := by
  cases fuel with
  | zero => rfl
  | succ fuel => cases mem <;> rw [replaceLoop, if_pos rfl]

/-- `string_replace(mem, slen, ...)`. -/
def stringReplace (fs : List SubFilter) (mem : List UInt8) (slen : Nat) : List UInt8 :=
  replaceLoop fs slen mem slen

/-- A pass moves the pointer if a filter matches, and only then. -/
theorem filterPass_moves (fs : List SubFilter) (mem : List UInt8) (left : Nat) :
    ∃ c, (filterPass fs mem left).mem = mem.drop c ∧ (filterPass fs mem left).left = left - c ∧
      ((filterPass fs mem left).flag = true → 0 < c) := by
  induction fs generalizing mem left with
  | nil => exact ⟨0, rfl, rfl, fun h => by cases h⟩
  | cons f fs ih =>
    rw [filterPass]
    split
    · next hmatch =>
      obtain ⟨c, hmem, hleft, -⟩ := ih (mem.drop f.str1.length) (left - f.str1.length)
      refine ⟨f.str1.length + c, ?_, ?_, fun _ => ?_⟩
      · rw [hmem, List.drop_drop]
      · rw [hleft, Nat.sub_sub]
      · have := List.length_pos_iff.mpr hmatch.1
        omega
    · exact ih mem left

/-- What a match writes starts with the second text of a filter. -/
theorem filterPass_written {fs : List SubFilter} {mem : List UInt8} {left : Nat}
    (hflag : (filterPass fs mem left).flag = true) :
    ∃ f ∈ fs, ∃ more, (filterPass fs mem left).written = f.str2 ++ more := by
  induction fs with
  | nil => cases hflag
  | cons f fs ih =>
    rw [filterPass] at hflag ⊢
    split
    · exact ⟨f, List.mem_cons_self, _, rfl⟩
    · next hmatch =>
      rw [if_neg hmatch] at hflag
      obtain ⟨g, hg, more, hmore⟩ := ih hflag
      exact ⟨g, List.mem_cons_of_mem _ hg, more, hmore⟩

/-- And it consists of these texts. -/
theorem mem_filterPass_written {fs : List SubFilter} {mem : List UInt8} {left : Nat} {b : UInt8}
    (hb : b ∈ (filterPass fs mem left).written) : ∃ f ∈ fs, b ∈ f.str2 := by
  induction fs generalizing mem left with
  | nil => cases hb
  | cons f fs ih =>
    rw [filterPass] at hb
    split at hb
    · rcases List.mem_append.mp hb with hb | hb
      · exact ⟨f, List.mem_cons_self, hb⟩
      · obtain ⟨g, hg, hgb⟩ := ih hb
        exact ⟨g, List.mem_cons_of_mem _ hg, hgb⟩
    · obtain ⟨g, hg, hgb⟩ := ih hb
      exact ⟨g, List.mem_cons_of_mem _ hg, hgb⟩

theorem filterPass_left_lt {fs : List SubFilter} {mem : List UInt8} {left : Nat} (hleft : left ≠ 0)
    (hflag : (filterPass fs mem left).flag = true) : (filterPass fs mem left).left < left := by
  obtain ⟨c, -, hl, hpos⟩ := filterPass_moves fs mem left
  have := hpos hflag
  omega

/-- More turns than there are bytes change nothing. -/
theorem replaceLoop_fuel (fs : List SubFilter) {fuel left : Nat} (mem : List UInt8)
    (h : left ≤ fuel) : replaceLoop fs fuel mem left = stringReplace fs mem left := by
  rw [stringReplace]
  induction fuel using Nat.strong_induction_on generalizing mem left with
  | _ fuel ih =>
    cases fuel with
    | zero => rw [Nat.le_zero.mp h]
    | succ fuel =>
      cases left with
      | zero => rw [replaceLoop_zero, replaceLoop_zero]
      | succ left =>
        rw [replaceLoop_succ fs fuel mem (Nat.succ_ne_zero left),
          replaceLoop_succ fs left mem (Nat.succ_ne_zero left)]
        split
        · next hflag =>
          have hlt := filterPass_left_lt (Nat.succ_ne_zero left) hflag
          rw [ih fuel (Nat.lt_succ_self _) _ (by omega), ih left (by omega) _ (by omega)]
        · cases mem with
          | nil => rfl
          | cons b rest =>
            show b :: _ = b :: _
            rw [ih fuel (Nat.lt_succ_self _) rest (by omega)]
            rfl

theorem stringReplace_zero (fs : List SubFilter) (mem : List UInt8) : stringReplace fs mem 0 = [] := rfl

/-- A turn in which a filter matches. -/
theorem stringReplace_of_flag {fs : List SubFilter} {mem : List UInt8} {left : Nat} (hleft : left ≠ 0)
    (hflag : (filterPass fs mem left).flag = true) :
    stringReplace fs mem left = (filterPass fs mem left).written ++
      stringReplace fs (filterPass fs mem left).mem (filterPass fs mem left).left := by
  have hlt := filterPass_left_lt hleft hflag
  rw [stringReplace]
  cases left with
  | zero => exact absurd rfl hleft
  | succ left =>
    rw [replaceLoop_succ fs left mem hleft, if_pos hflag, replaceLoop_fuel fs _ (by omega)]

/-- A turn in which none does. -/
theorem stringReplace_cons {fs : List SubFilter} {b : UInt8} {rest : List UInt8} {left : Nat}
    (hflag : (filterPass fs (b :: rest) (left + 1)).flag = false) :
    stringReplace fs (b :: rest) (left + 1) = b :: stringReplace fs rest left := by
  rw [stringReplace, replaceLoop_succ fs left _ (Nat.succ_ne_zero left),
    if_neg (by rw [hflag]; decide)]
  rfl

/-! ## Text that ends -/

/-- `string_replace` of a text with nothing behind it. -/
def replaced (fs : List SubFilter) (l : List UInt8) : List UInt8 := stringReplace fs l l.length

/-- No filter looks for the byte. -/
def Without (stop : UInt8) (fs : List SubFilter) : Prop := ∀ f ∈ fs, stop ∉ f.str1

theorem without_nul (fs : List SubFilter) : Without 0 fs := fun f _ => f.nul1

/-- A pass does not get over such a byte, and does not see what is behind it. -/
theorem filterPass_stop {fs : List SubFilter} {stop : UInt8} (hfs : Without stop fs)
    (l rest : List UInt8) (m : Nat) :
    filterPass fs (l ++ stop :: rest) (l.length + m) =
      { filterPass fs l l.length with
        mem := (filterPass fs l l.length).mem ++ stop :: rest
        left := (filterPass fs l l.length).mem.length + m } ∧
      (filterPass fs l l.length).left = (filterPass fs l l.length).mem.length := by
  induction fs generalizing l with
  | nil => exact ⟨rfl, rfl⟩
  | cons f fs ih =>
    have hfs' : Without stop fs := fun g hg => hfs g (List.mem_cons_of_mem _ hg)
    have hiff : f.str1 <+: l ++ stop :: rest ↔ f.str1 <+: l :=
      Replaced.prefix_append_cons_iff (hfs f List.mem_cons_self)
    by_cases hmatch : f.str1 ≠ [] ∧ f.str1 <+: l
    · have hle := hmatch.2.length_le
      have hmatch' : f.str1 ≠ [] ∧ f.str1 <+: l ++ stop :: rest := ⟨hmatch.1, hiff.mpr hmatch.2⟩
      obtain ⟨h1, h2⟩ := ih hfs' (l.drop f.str1.length)
      rw [List.length_drop] at h1 h2
      rw [filterPass, filterPass, if_pos hmatch, if_pos hmatch', List.drop_append_of_le_length hle,
        show l.length + m - f.str1.length = l.length - f.str1.length + m by omega]
      simp only [h1, h2, and_self]
    · have hmatch' : ¬(f.str1 ≠ [] ∧ f.str1 <+: l ++ stop :: rest) := by rwa [hiff]
      rw [filterPass, filterPass, if_neg hmatch, if_neg hmatch']
      exact ih hfs' l

/-- Text up to a byte that no filter looks for is replaced as if it ended there. -/
theorem stringReplace_stop {fs : List SubFilter} {stop : UInt8} (hfs : Without stop fs)
    (l rest : List UInt8) (m : Nat) :
    stringReplace fs (l ++ stop :: rest) (l.length + m) =
      replaced fs l ++ stringReplace fs (stop :: rest) m := by
  induction hn : l.length using Nat.strong_induction_on generalizing l with
  | _ n ih =>
    subst hn
    cases l with
    | nil => rw [List.nil_append, List.length_nil, Nat.zero_add]; rfl
    | cons b l =>
      obtain ⟨hpass, hleft⟩ := filterPass_stop hfs (b :: l) rest m
      rw [replaced]
      by_cases hflag : (filterPass fs (b :: l) (b :: l).length).flag = true
      · have hne : (b :: l).length ≠ 0 := Nat.succ_ne_zero _
        have hlt := filterPass_left_lt hne hflag
        rw [stringReplace_of_flag hne hflag,
          stringReplace_of_flag (by omega) (by rw [hpass]; exact hflag), hpass, List.append_assoc]
        congr 1
        rw [hleft] at hlt ⊢
        exact ih _ hlt _ rfl
      · rw [Bool.not_eq_true] at hflag
        have hflag' : (filterPass fs (b :: (l ++ stop :: rest)) (l.length + m + 1)).flag = false := by
          rw [List.cons_append, List.length_cons, Nat.add_right_comm] at hpass
          rw [hpass]
          exact hflag
        rw [List.cons_append, List.length_cons, Nat.add_right_comm, stringReplace_cons hflag',
          stringReplace_cons hflag, List.cons_append]
        congr 1
        exact ih l.length (Nat.lt_succ_self _) l rfl

/-- Such a byte is copied. -/
theorem stringReplace_stop_one {fs : List SubFilter} {stop : UInt8} (hfs : Without stop fs)
    (rest : List UInt8) : stringReplace fs (stop :: rest) 1 = [stop] := by
  have hpass := (filterPass_stop hfs [] rest 1).1
  have hnil : (filterPass fs [] 0).flag = false := by
    clear hpass
    induction fs with
    | nil => rfl
    | cons f fs ih =>
      rw [filterPass, if_neg]
      · exact ih fun g hg => hfs g (List.mem_cons_of_mem _ hg)
      · rintro ⟨hne, hpre⟩
        exact hne (List.prefix_nil.mp hpre)
  rw [stringReplace_cons]
  · rfl
  · rw [show (0 : Nat) + 1 = [].length + 1 from rfl, show stop :: rest = [] ++ stop :: rest from rfl,
      hpass]
    exact hnil

/-- A line with its newline. -/
theorem stringReplace_line {fs : List SubFilter} {stop : UInt8} (hfs : Without stop fs)
    (l rest : List UInt8) :
    stringReplace fs (l ++ stop :: rest) (l.length + 1) = replaced fs l ++ [stop] := by
  rw [stringReplace_stop hfs, stringReplace_stop_one hfs]

/-- A C string in memory. -/
theorem stringReplace_terminated {fs : List SubFilter} {stop : UInt8} (hfs : Without stop fs)
    (l rest : List UInt8) : stringReplace fs (l ++ stop :: rest) l.length = replaced fs l := by
  have h := stringReplace_stop hfs l rest 0
  rwa [stringReplace_zero, List.append_nil, Nat.add_zero] at h

/-! ## What is put in does not make up a text -/

/-- A text none of whose bytes a replacement starts with was there before. -/
theorem prefix_of_stringReplace {fs : List SubFilter} {w mem : List UInt8} {left : Nat}
    (hne : ∀ f ∈ fs, f.str2 ≠ []) (hw : ∀ f ∈ fs, ∀ b ∈ w, f.str2.head? ≠ some b)
    (h : w <+: stringReplace fs mem left) : w <+: mem.take left := by
  induction w generalizing mem left with
  | nil => exact List.nil_prefix
  | cons b w ih =>
    cases left with
    | zero => exact absurd (List.prefix_nil.mp h) (List.cons_ne_nil b w)
    | succ left =>
      by_cases hflag : (filterPass fs mem (left + 1)).flag = true
      · exfalso
        rw [stringReplace_of_flag (Nat.succ_ne_zero left) hflag] at h
        obtain ⟨f, hf, more, hmore⟩ := filterPass_written hflag
        obtain ⟨c, cs, hc⟩ := List.exists_cons_of_ne_nil (hne f hf)
        rw [hmore, hc, List.cons_append, List.cons_append] at h
        have hbc := (List.cons_prefix_cons.mp h).1
        exact hw f hf b List.mem_cons_self (by rw [hc, hbc]; rfl)
      · rw [Bool.not_eq_true] at hflag
        cases mem with
        | nil =>
          rw [stringReplace, replaceLoop_succ fs left _ (Nat.succ_ne_zero left),
            if_neg (by rw [hflag]; decide)] at h
          exact absurd (List.prefix_nil.mp h) (List.cons_ne_nil b w)
        | cons a mem =>
          rw [stringReplace_cons hflag] at h
          obtain ⟨hab, hrest⟩ := List.cons_prefix_cons.mp h
          rw [List.take_succ_cons]
          exact List.cons_prefix_cons.mpr
            ⟨hab, ih (fun f hf c hc => hw f hf c (List.mem_cons_of_mem _ hc)) hrest⟩

/-- A text whose first byte no replacement has, and whose other bytes start none, is in the result
only if it was in the memory. -/
theorem drop_prefix_of_stringReplace {fs : List SubFilter} {a : UInt8} {w mem : List UInt8} {left k : Nat}
    (hne : ∀ f ∈ fs, f.str2 ≠ []) (hw : ∀ f ∈ fs, ∀ b ∈ a :: w, f.str2.head? ≠ some b)
    (ha : ∀ f ∈ fs, a ∉ f.str2) (h : a :: w <+: (stringReplace fs mem left).drop k) :
    ∃ j, a :: w <+: (mem.take left).drop j := by
  induction left using Nat.strong_induction_on generalizing mem k with
  | _ left ih =>
    by_cases hzero : left = 0
    · rw [hzero, stringReplace_zero, List.drop_nil] at h
      exact absurd (List.prefix_nil.mp h) (List.cons_ne_nil a w)
    · by_cases hflag : (filterPass fs mem left).flag = true
      · rw [stringReplace_of_flag hzero hflag] at h
        by_cases hk : k < (filterPass fs mem left).written.length
        · -- the first byte would be one of a replacement
          exfalso
          rw [List.drop_append_of_le_length (Nat.le_of_lt hk), List.drop_eq_getElem_cons hk,
            List.cons_append] at h
          have hhead := (List.cons_prefix_cons.mp h).1
          obtain ⟨f, hf, hfa⟩ := mem_filterPass_written (List.getElem_mem hk)
          exact ha f hf (hhead ▸ hfa)
        · rw [List.drop_append, List.drop_of_length_le (by omega), List.nil_append] at h
          obtain ⟨c, hmem, hleft, -⟩ := filterPass_moves fs mem left
          obtain ⟨j, hj⟩ := ih _ (filterPass_left_lt hzero hflag) h
          refine ⟨c + j, ?_⟩
          rw [hmem, hleft, ← List.drop_take] at hj
          rwa [List.drop_drop] at hj
      · rw [Bool.not_eq_true] at hflag
        cases k with
        | zero => exact ⟨0, prefix_of_stringReplace hne hw h⟩
        | succ k =>
          obtain ⟨left, rfl⟩ := Nat.exists_eq_succ_of_ne_zero hzero
          cases mem with
          | nil =>
            rw [stringReplace, replaceLoop_succ fs left _ hzero, if_neg (by rw [hflag]; decide),
              List.drop_nil] at h
            exact absurd (List.prefix_nil.mp h) (List.cons_ne_nil a w)
          | cons b mem =>
            rw [stringReplace_cons hflag, List.drop_succ_cons] at h
            obtain ⟨j, hj⟩ := ih left (Nat.lt_succ_self _) h
            exact ⟨j + 1, by rwa [List.take_succ_cons, List.drop_succ_cons]⟩

/-- A byte that no replacement has is in the result only if it was in the memory. -/
theorem not_mem_stringReplace {fs : List SubFilter} {b : UInt8} {mem : List UInt8} {left : Nat}
    (hfs : ∀ f ∈ fs, b ∉ f.str2) (hb : b ∉ mem.take left) : b ∉ stringReplace fs mem left := by
  induction left using Nat.strong_induction_on generalizing mem with
  | _ left ih =>
    by_cases hzero : left = 0
    · rw [hzero, stringReplace_zero]
      exact List.not_mem_nil
    · by_cases hflag : (filterPass fs mem left).flag = true
      · rw [stringReplace_of_flag hzero hflag, List.mem_append, not_or]
        constructor
        · intro hmem
          obtain ⟨f, hf, hfb⟩ := mem_filterPass_written hmem
          exact hfs f hf hfb
        · obtain ⟨c, hmem, hleft, -⟩ := filterPass_moves fs mem left
          apply ih _ (filterPass_left_lt hzero hflag)
          rw [hmem, hleft, ← List.drop_take]
          exact fun h => hb (List.mem_of_mem_drop h)
      · rw [Bool.not_eq_true] at hflag
        obtain ⟨left, rfl⟩ := Nat.exists_eq_succ_of_ne_zero hzero
        cases mem with
        | nil =>
          rw [stringReplace, replaceLoop_succ fs left _ hzero, if_neg (by rw [hflag]; decide)]
          exact List.not_mem_nil
        | cons a mem =>
          rw [List.take_succ_cons, List.mem_cons, not_or] at hb
          rw [stringReplace_cons hflag, List.mem_cons, not_or]
          exact ⟨hb.1, ih left (Nat.lt_succ_self _) hb.2⟩

/-! ## Numbers -/

/-- What is printed is read again. -/
theorem decimal_digitsText (n : Nat) : decimal (digitsText n) = n := foldl_digitsText n

/-- The number that `%5d` printed behind a blank. -/
theorem scanInt_padded (n : Nat) {rest : List UInt8} (hrest : ∀ b ∈ rest.head?, isDigit b = false) :
    scanInt (32 :: (padded n ++ rest)) = some (n : Int) := by
  have hneg : ¬(n : Int) < 0 := by omega
  have hdigit : ∀ b ∈ digitsText n, isDigit b = true := by
    intro b hb
    have := digitsText_isDigit hb
    simp [isDigit, this.1, this.2]
  rw [padded, if_neg hneg, Int.toNat_natCast, List.append_assoc, ← List.cons_append,
    scanInt_digits _ (digitsText_ne_nil n) hdigit hrest, decimal_digitsText]
  intro b hb
  rw [← List.replicate_succ] at hb
  rw [List.eq_of_mem_replicate hb]
  rfl

/-! ## The head of a message -/

/-- `string_http_heard_getlength`; -1 is `none`. -/
def heardGetlength (buf : List UInt8) : Option Nat :=
  if Rtsp.httpHeardGetlength buf = 0 then none else some (Rtsp.httpHeardGetlength buf)

def contentLengthKey : List UInt8 := text "Content-Length:"

/-- `strchr(mem, '\n')`, as an offset. -/
def newlineAt (mem : List UInt8) : Option Nat := (cstr mem).findIdx? (· == 10)

/-- The loop of `string_http_head_get_content_length`, line by line; `fuel` bounds the number of
lines. -/
def contentLengthLoop : Nat → Int → List UInt8 → Nat → Int
  | 0, found, _, _ => found
  | fuel + 1, found, mem, left =>
    if left = 0 then found
    else
      let found :=
        if startsCI contentLengthKey mem then (scanInt (cstr (mem.drop 15))).getD 0 else found
      match newlineAt mem with
      | none => found
      | some k =>
        if k + 2 < left ∧ mem[k + 1]? = some 13 ∧ mem[k + 2]? = some 10 then found
        else contentLengthLoop fuel found (mem.drop (k + 1)) (left - (k + 1))

/-- `string_http_head_get_content_length`. -/
def headGetContentLength (mem : List UInt8) (headlen : Nat) : Int :=
  contentLengthLoop headlen (-1) mem headlen

/-- Lines with their newlines. -/
def unlines (lines : List (List UInt8)) : List UInt8 := lines.flatMap (· ++ [10])

@[simp] theorem unlines_nil : unlines [] = [] := rfl

theorem unlines_cons (l : List UInt8) (ls : List (List UInt8)) (rest : List UInt8) :
    unlines (l :: ls) ++ rest = l ++ 10 :: (unlines ls ++ rest) := by
  simp [unlines]

theorem unlines_append (ls ls' : List (List UInt8)) : unlines (ls ++ ls') = unlines ls ++ unlines ls' :=
  List.flatMap_append

/-- The end of the first line. -/
theorem newlineAt_line {l : List UInt8} (hline : 10 ∉ l) (hnul : 0 ∉ l) (rest : List UInt8) :
    newlineAt (l ++ 10 :: rest) = some l.length := by
  have hcstr : cstr (l ++ 10 :: rest) = l ++ 10 :: cstr rest := by
    rw [cstr_append hnul]
    rfl
  have hnone : l.findIdx? (· == 10) = none := by
    rw [List.findIdx?_eq_none_iff]
    intro b hb
    rw [beq_eq_false_iff_ne]
    rintro rfl
    exact hline hb
  rw [newlineAt, hcstr, List.findIdx?_append, hnone, List.findIdx?_cons]
  simp

/-- A blank line ends the head. -/
theorem httpHeardGetlengthFrom_blank_le (i : Nat) (l rest : List UInt8) :
    0 < Rtsp.httpHeardGetlengthFrom i (l ++ 10 :: 13 :: 10 :: rest) ∧
      Rtsp.httpHeardGetlengthFrom i (l ++ 10 :: 13 :: 10 :: rest) ≤ i + l.length + 3 := by
  induction l generalizing i with
  | nil => simp [Rtsp.httpHeardGetlengthFrom]
  | cons b l ih =>
    have hrec := ih (i + 1)
    rw [List.cons_append, List.length_cons, Rtsp.httpHeardGetlengthFrom.eq_def]
    split
    · next h => cases h
    · omega
    · omega
    · omega
    · omega
    · next heq =>
      cases heq
      omega

/-- A line of text. -/
def IsLine (l : List UInt8) : Prop := 10 ∉ l ∧ 0 ∉ l

theorem startsCI_line {key l rest : List UInt8} (hkey : ∀ b ∈ key, toLower b ≠ 10) :
    startsCI key (l ++ 10 :: rest) = startsCI key l := by
  rw [Bool.eq_iff_iff]
  exact ⟨startsCI_of_stop hkey, fun h => startsCI_append h _⟩

theorem toLower_contentLengthKey : ∀ b ∈ contentLengthKey, toLower b ≠ 10 := by decide +kernel

/-- One line of the loop. -/
theorem contentLengthLoop_line {l : List UInt8} (hl : IsLine l) (fuel : Nat) (found : Int)
    (rest : List UInt8) (left : Nat) :
    contentLengthLoop (fuel + 1) found (l ++ 10 :: rest) (l.length + 1 + left) =
      (let found := if startsCI contentLengthKey l then
          (scanInt (cstr ((l ++ 10 :: rest).drop 15))).getD 0 else found
        if 2 ≤ left ∧ rest[0]? = some 13 ∧ rest[1]? = some 10 then found
        else contentLengthLoop fuel found rest left) := by
  have hget : ∀ j, (l ++ 10 :: rest)[l.length + (j + 1)]? = rest[j]? := by
    intro j
    rw [List.getElem?_append_right (by omega), show l.length + (j + 1) - l.length = j + 1 by omega,
      List.getElem?_cons_succ]
  have hdrop : (l ++ 10 :: rest).drop (l.length + 1) = rest := by
    rw [List.drop_append, List.drop_of_length_le (by omega), show l.length + 1 - l.length = 1 by omega]
    rfl
  have hbreak : l.length + 2 < l.length + 1 + left ↔ 2 ≤ left := by omega
  rw [contentLengthLoop, if_neg (by omega), startsCI_line toLower_contentLengthKey,
    newlineAt_line hl.1 hl.2]
  simp only [hget 0, hget 1, hdrop, hbreak, show l.length + 1 + left - (l.length + 1) = left by omega]

/-- Lines without the key change nothing. -/
theorem contentLengthLoop_without {lines : List (List UInt8)} (hlines : ∀ l ∈ lines, IsLine l)
    (hkey : ∀ l ∈ lines, startsCI contentLengthKey l = false) (fuel : Nat) (found : Int)
    (rest : List UInt8) :
    contentLengthLoop fuel found (unlines lines ++ rest) (unlines lines).length = found := by
  induction lines generalizing fuel with
  | nil => cases fuel <;> rfl
  | cons l lines ih =>
    cases fuel with
    | zero => rfl
    | succ fuel =>
      have hlen : (unlines (l :: lines)).length = l.length + 1 + (unlines lines).length := by
        simp [unlines]
        omega
      rw [unlines_cons, hlen, contentLengthLoop_line (hlines l List.mem_cons_self)]
      simp only [hkey l List.mem_cons_self]
      split
      · rfl
      · exact ih (fun l hl => hlines l (List.mem_cons_of_mem _ hl))
          (fun l hl => hkey l (List.mem_cons_of_mem _ hl)) fuel

/-- A blank line of `\r\n` is at the end of the text. -/
def BlankLast (buf : List UInt8) : Prop := ∀ before after, buf = before ++ 10 :: 13 :: 10 :: after → after = []

theorem blankLast_of_heardGetlength {head body : List UInt8}
    (h : heardGetlength (head ++ body) = some head.length) : BlankLast head := by
  intro before after heq
  have hle := httpHeardGetlengthFrom_blank_le 0 before (after ++ body)
  rw [heardGetlength, heq] at h
  split at h
  · cases h
  · rw [Option.some.injEq, Rtsp.httpHeardGetlength] at h
    rw [List.append_assoc, List.cons_append, List.cons_append, List.cons_append] at h
    rw [h, List.length_append, List.length_cons, List.length_cons, List.length_cons] at hle
    apply List.eq_nil_of_length_eq_zero
    omega

/-- The loop gets to a line behind which there is more than a blank one. -/
theorem contentLengthLoop_before {before : List (List UInt8)} (hlines : ∀ l ∈ before, IsLine l)
    (hkey : ∀ l ∈ before, startsCI contentLengthKey l = false) {more : List UInt8}
    (hblank : BlankLast (unlines before ++ more)) (hmore : more ≠ []) (hfirst : more.head? ≠ some 13)
    (fuel : Nat) (found : Int) (rest : List UInt8) :
    contentLengthLoop (fuel + before.length) found (unlines before ++ (more ++ rest))
        ((unlines before).length + more.length) =
      contentLengthLoop fuel found (more ++ rest) more.length := by
  induction before with
  | nil => simp only [unlines_nil, List.nil_append, List.length_nil, Nat.zero_add, Nat.add_zero]
  | cons l before ih =>
    have hblank' : BlankLast (unlines before ++ more) := by
      intro b a heq
      apply hblank (l ++ 10 :: b) a
      rw [unlines_cons, heq]
      simp
    -- two bytes `\r\n` behind the line would be all that is left
    have hnobreak : ¬(2 ≤ (unlines before).length + more.length ∧
        (unlines before ++ (more ++ rest))[0]? = some 13 ∧
        (unlines before ++ (more ++ rest))[1]? = some 10) := by
      rintro ⟨h2, h13, h10⟩
      have hlen : 2 ≤ (unlines before ++ more).length := by rwa [List.length_append]
      rw [← List.append_assoc] at h13 h10
      rw [List.getElem?_append_left (by omega)] at h13 h10
      obtain ⟨a, b, tail, htail⟩ : ∃ a b tail, unlines before ++ more = a :: b :: tail := by
        match hm : unlines before ++ more with
        | a :: b :: tail => exact ⟨a, b, tail, rfl⟩
        | [] | [_] => rw [hm] at hlen; simp at hlen
      rw [htail] at h13 h10
      obtain rfl : a = 13 := Option.some.inj h13
      obtain rfl : b = 10 := Option.some.inj h10
      have hnil : tail = [] := by
        apply hblank l tail
        rw [unlines_cons, htail]
      rw [hnil] at htail
      cases before with
      | nil =>
        rw [unlines_nil, List.nil_append] at htail
        rw [htail] at hfirst
        exact hfirst rfl
      | cons l' before =>
        rw [unlines_cons] at htail
        have hpos := List.length_pos_iff.mpr hmore
        have htotal := congrArg List.length htail
        simp only [List.length_append, List.length_cons, List.length_nil] at htotal
        obtain rfl : l' = [] := List.eq_nil_of_length_eq_zero (by omega)
        exact absurd (List.cons.inj htail).1 (by decide)
    have hlen : (unlines (l :: before)).length + more.length =
        l.length + 1 + ((unlines before).length + more.length) := by
      simp [unlines]
      omega
    rw [unlines_cons, hlen, List.length_cons, ← Nat.add_assoc,
      contentLengthLoop_line (hlines l List.mem_cons_self)]
    simp only [hkey l List.mem_cons_self, if_neg hnobreak]
    exact ih (fun l hl => hlines l (List.mem_cons_of_mem _ hl))
      (fun l hl => hkey l (List.mem_cons_of_mem _ hl)) hblank'

end ProgrammingPath.Forward
