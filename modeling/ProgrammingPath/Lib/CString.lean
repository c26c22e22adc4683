import Mathlib.Algebra.Group.Nat.Defs
import Mathlib.Data.List.TakeWhile

/-!
# C strings

Text in memory, as the string functions of C see it: the bytes from a pointer on, of which those up to
the first NUL are the string. Comparison without regard to case, the first occurrence of a text, and
decimal numbers.
-/

namespace ProgrammingPath.Lib

/-- The bytes of a literal. -/
def text (s : String) : List UInt8 := s.toList.map fun c => UInt8.ofNat c.toNat

/-- The string at a pointer. -/
def cstr (mem : List UInt8) : List UInt8 := mem.takeWhile (· != 0)

theorem cstr_append {l : List UInt8} (h : 0 ∉ l) (rest : List UInt8) :
    cstr (l ++ rest) = l ++ cstr rest := by
  apply List.takeWhile_append_of_pos
  intro b hb
  rw [bne_iff_ne]
  rintro rfl
  exact h hb

theorem cstr_of_notMem {l : List UInt8} (h : 0 ∉ l) : cstr l = l := by
  have happend := cstr_append h []
  rw [List.append_nil] at happend
  exact happend.trans (List.append_nil l)

theorem zero_notMem_cstr (mem : List UInt8) : 0 ∉ cstr mem := by
  intro h
  simpa using List.mem_takeWhile_imp h

/-- A text up to a byte ends at its end or before that byte. -/
theorem dropWhile_bne_cases {α : Type} [BEq α] [LawfulBEq α] (b : α) (l : List α) :
    l.dropWhile (· != b) = [] ∨ ∃ r, l.dropWhile (· != b) = b :: r := by
  cases hdrop : l.dropWhile (· != b) with
  | nil => exact .inl rfl
  | cons c r =>
    have hc := List.head?_dropWhile_not (· != b) l
    rw [hdrop] at hc
    have hc : c = b := by simpa using hc
    exact .inr ⟨r, by rw [hc]⟩

/-! ## Comparison without regard to case -/

/-- `tolower` for ASCII. -/
def toLower (b : UInt8) : UInt8 := if 65 ≤ b ∧ b ≤ 90 then b + 32 else b

/-- `strncasecmp(mem, lit, strlen(lit)) == 0`. -/
def startsCI (lit mem : List UInt8) : Bool := (mem.take lit.length).map toLower == lit.map toLower

theorem startsCI_iff {lit mem : List UInt8} :
    startsCI lit mem = true ↔ (mem.take lit.length).map toLower = lit.map toLower := by
  rw [startsCI, beq_iff_eq]

theorem startsCI_length_le {lit mem : List UInt8} (h : startsCI lit mem = true) :
    lit.length ≤ mem.length := by
  have hlen := congrArg List.length (startsCI_iff.mp h)
  rw [List.length_map, List.length_map, List.length_take] at hlen
  omega

/-- A text is found in the memory it starts in. -/
theorem startsCI_append {lit l : List UInt8} (h : startsCI lit l = true) (rest : List UInt8) :
    startsCI lit (l ++ rest) = true := by
  rw [startsCI_iff, List.take_append_of_le_length (startsCI_length_le h)]
  exact startsCI_iff.mp h

/-- A text without the byte `stop` does not reach over it. -/
theorem startsCI_of_stop {lit l rest : List UInt8} {stop : UInt8}
    (hstop : ∀ b ∈ lit, toLower b ≠ toLower stop) (h : startsCI lit (l ++ stop :: rest) = true) :
    startsCI lit l = true := by
  have heq := startsCI_iff.mp h
  by_cases hle : lit.length ≤ l.length
  · rw [List.take_append_of_le_length hle] at heq
    exact startsCI_iff.mpr heq
  · exfalso
    have hmem : toLower stop ∈ ((l ++ stop :: rest).take lit.length).map toLower := by
      apply List.mem_map_of_mem
      rw [List.take_append, show lit.length - l.length = lit.length - l.length - 1 + 1 by omega,
        List.take_succ_cons]
      exact List.mem_append_right _ List.mem_cons_self
    rw [heq] at hmem
    obtain ⟨b, hb, hbe⟩ := List.mem_map.mp hmem
    exact hstop b hb hbe

/-! ## The first occurrence -/

/-- `strstr`, as an offset into the string. -/
def indexOf (needle : List UInt8) : List UInt8 → Option Nat
  | [] => if needle = [] then some 0 else none
  | b :: rest => if needle <+: b :: rest then some 0 else (indexOf needle rest).map (· + 1)

theorem indexOf_of_prefix {needle mem : List UInt8} (h : needle <+: mem) :
    indexOf needle mem = some 0 := by
  cases mem with
  | nil => rw [indexOf, if_pos (List.prefix_nil.mp h)]
  | cons b rest => rw [indexOf, if_pos h]

/-- Nothing before an occurrence makes it the first one. -/
theorem indexOf_append {needle l rest : List UInt8} (hl : ∀ k < l.length, ¬needle <+: (l ++ rest).drop k)
    (h : needle <+: rest) : indexOf needle (l ++ rest) = some l.length := by
  induction l with
  | nil => exact indexOf_of_prefix h
  | cons b l ih =>
    have hfirst : ¬needle <+: b :: (l ++ rest) := hl 0 (Nat.zero_lt_succ _)
    rw [List.cons_append, indexOf, if_neg hfirst, ih, Option.map_some, List.length_cons]
    intro k hk
    exact hl (k + 1) (Nat.succ_lt_succ hk)

theorem indexOf_isSome_iff {needle mem : List UInt8} (hne : needle ≠ []) :
    (indexOf needle mem).isSome = true ↔ needle <:+: mem := by
  induction mem with
  | nil => simp [indexOf, hne]
  | cons b rest ih =>
    rw [indexOf, List.infix_cons_iff]
    split
    · next h => simp [h]
    · next h => rw [Option.isSome_map, ih, or_iff_right h]

/-- An occurrence in the first part of a text is found there. -/
theorem indexOf_append_left {needle l : List UInt8} (hne : needle ≠ []) (h : needle <:+: l)
    (rest : List UInt8) : ∃ k < l.length, indexOf needle (l ++ rest) = some k := by
  induction l with
  | nil => exact absurd (List.infix_nil.mp h) hne
  | cons b l ih =>
    rw [List.cons_append, indexOf]
    split
    · exact ⟨0, Nat.zero_lt_succ _, rfl⟩
    · next hfirst =>
      rcases List.infix_cons_iff.mp h with hpre | hin
      · exact absurd (hpre.trans (List.prefix_append (b :: l) rest)) hfirst
      · obtain ⟨k, hk, hindex⟩ := ih hin
        exact ⟨k + 1, Nat.succ_lt_succ hk, by rw [hindex]; rfl⟩

/-! ## Lines -/

/-- The length of the first line, with its end if it has one. -/
def lineLength (mem : List UInt8) : Nat := min ((mem.takeWhile (· != 10)).length + 1) mem.length

theorem lineLength_line {l : List UInt8} (hl : 10 ∉ l) (rest : List UInt8) :
    lineLength (l ++ 10 :: rest) = l.length + 1 := by
  have htake : (l ++ 10 :: rest).takeWhile (· != 10) = l := by
    rw [List.takeWhile_append_of_pos, List.takeWhile_cons_of_neg (by simp), List.append_nil]
    intro b hb
    rw [bne_iff_ne]
    rintro rfl
    exact hl hb
  rw [lineLength, htake, List.length_append, List.length_cons]
  omega

theorem lineLength_le (mem : List UInt8) : lineLength mem ≤ mem.length := Nat.min_le_right _ _

theorem lineLength_pos {mem : List UInt8} (h : mem ≠ []) : 0 < lineLength mem :=
  Nat.lt_min.mpr ⟨Nat.succ_pos _, List.length_pos_iff.mpr h⟩

/-- What is behind the end of the line does not count. -/
theorem lineLength_append {mem : List UInt8} (h : 10 ∈ mem) (rest : List UInt8) :
    lineLength (mem ++ rest) = lineLength mem := by
  obtain ⟨l, more, rfl, hl⟩ := List.eq_append_cons_of_mem h
  rw [List.append_assoc, List.cons_append, lineLength_line hl, lineLength_line hl]

/-- The first line is no longer than what is before any line end. -/
theorem lineLength_le_of_append (l rest : List UInt8) : lineLength (l ++ 10 :: rest) ≤ l.length + 1 := by
  by_cases h : 10 ∈ l
  · rw [lineLength_append h]
    exact Nat.le_succ_of_le (lineLength_le l)
  · rw [lineLength_line h]

theorem drop_line (l rest : List UInt8) : (l ++ 10 :: rest).drop (l.length + 1) = rest := by
  rw [List.append_cons, List.drop_left']
  rw [List.length_append, List.length_singleton]

/-! ## Decimal numbers -/

/-- The digits of a number; `fuel` bounds how many there are. -/
def digitsLoop : Nat → Nat → List UInt8
  | 0, _ => []
  | fuel + 1, n =>
    if n < 10 then [UInt8.ofNat (48 + n)]
    else digitsLoop fuel (n / 10) ++ [UInt8.ofNat (48 + n % 10)]

/-- `%d` of a number that is not negative. -/
def digitsText (n : Nat) : List UInt8 := digitsLoop (n + 1) n

/-- `%5d`. -/
def padded (v : Int) : List UInt8 :=
  let shown := if v < 0 then 45 :: digitsText v.natAbs else digitsText v.toNat
  List.replicate (5 - shown.length) 32 ++ shown

theorem digitsLoop_isDigit {fuel n : Nat} {b : UInt8} (hb : b ∈ digitsLoop fuel n) :
    48 ≤ b ∧ b ≤ 57 := by
  have hdigit : ∀ d < 10, 48 ≤ UInt8.ofNat (48 + d) ∧ UInt8.ofNat (48 + d) ≤ 57 := by decide
  induction fuel generalizing n with
  | zero => cases hb
  | succ fuel ih =>
    rw [digitsLoop] at hb
    split at hb
    · next h =>
      rw [List.mem_singleton.mp hb]
      exact hdigit n h
    · rcases List.mem_append.mp hb with hb | hb
      · exact ih hb
      · rw [List.mem_singleton.mp hb]
        exact hdigit _ (Nat.mod_lt _ (by decide))

theorem digitsText_isDigit {n : Nat} {b : UInt8} (hb : b ∈ digitsText n) : 48 ≤ b ∧ b ≤ 57 :=
  digitsLoop_isDigit hb

theorem digitsText_ne_nil (n : Nat) : digitsText n ≠ [] := by
  rw [digitsText, digitsLoop]
  split <;> simp

/-- What is printed is read again, digit by digit. -/
theorem foldl_digitsLoop {fuel n : Nat} (h : n < fuel) :
    (digitsLoop fuel n).foldl (fun m d => 10 * m + (d.toNat - 48)) 0 = n := by
  have hdigit : ∀ d < 10, (UInt8.ofNat (48 + d)).toNat - 48 = d := by decide
  induction fuel generalizing n with
  | zero => exact absurd h (Nat.not_lt_zero n)
  | succ fuel ih =>
    rw [digitsLoop]
    split
    · next hn => simpa using hdigit n hn
    · rw [List.foldl_append, ih (by omega), List.foldl_cons, List.foldl_nil,
        hdigit _ (Nat.mod_lt _ (by decide))]
      omega

theorem foldl_digitsText (n : Nat) :
    (digitsText n).foldl (fun m d => 10 * m + (d.toNat - 48)) 0 = n :=
  foldl_digitsLoop (Nat.lt_succ_self n)

/-- So many digits for numbers below a power of ten. -/
theorem length_digitsLoop_le {fuel n k : Nat} (h : n < 10 ^ (k + 1)) :
    (digitsLoop fuel n).length ≤ k + 1 := by
  induction fuel generalizing n k with
  | zero => exact Nat.zero_le _
  | succ fuel ih =>
    rw [digitsLoop]
    split
    · simp
    · next hn =>
      cases k with
      | zero => exact absurd h (by simpa using hn)
      | succ k =>
        have hdiv : n / 10 < 10 ^ (k + 1) := by
          rw [Nat.pow_succ] at h
          omega
        rw [List.length_append, List.length_singleton]
        exact Nat.succ_le_succ (ih hdiv)

theorem length_padded {n : Nat} (h : n < 100000) : (padded n).length = 5 := by
  have hlen : (digitsText n).length ≤ 5 := length_digitsLoop_le (k := 4) h
  have hneg : ¬(n : Int) < 0 := by omega
  rw [padded, if_neg hneg, Int.toNat_natCast, List.length_append, List.length_replicate]
  omega

/-- Five characters at least. -/
theorem five_le_length_padded (v : Int) : 5 ≤ (padded v).length := by
  rw [padded, List.length_append, List.length_replicate]
  omega

end ProgrammingPath.Lib
