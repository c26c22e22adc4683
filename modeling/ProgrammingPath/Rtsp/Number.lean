import Mathlib.Data.List.TakeWhile
import ProgrammingPath.Rtsp.Reader

/-!
# Numbers in text

What `scanInt` reads: the digits up to the first byte that is none, whatever is behind it.
-/

namespace ProgrammingPath.Rtsp

/-- A digit is no NUL, no white space and no sign. -/
theorem isDigit_facts {b : UInt8} (h : isDigit b = true) :
    b ≠ 0 ∧ isSpace b = false ∧ b ≠ 45 ∧ b ≠ 43 := by
  have hall : ∀ n < 256, isDigit (UInt8.ofNat n) = true →
      UInt8.ofNat n ≠ 0 ∧ isSpace (UInt8.ofNat n) = false ∧ UInt8.ofNat n ≠ 45 ∧
        UInt8.ofNat n ≠ 43 := by decide +kernel
  have hb := hall b.toNat b.toNat_lt
  rw [UInt8.ofNat_toNat] at hb
  exact hb h

/-- A text that begins, after white space, with no sign. -/
theorem scanInt_of_dropWhile {text w : List UInt8} {c : UInt8} (h : text.dropWhile isSpace = c :: w) (hminus : c ≠ 45)
    (hplus : c ≠ 43) :
    scanInt text =
      if (c :: w).takeWhile isDigit = [] then none
      else some (decimal ((c :: w).takeWhile isDigit) : Int) := by
  rw [scanInt, h]
  split
  · next heq => exact absurd (List.cons.inj heq).1 hminus
  · next heq => exact absurd (List.cons.inj heq).1 hplus
  · rfl

/-- A number with blanks before it and no digit behind it, as `atoi` reads it. -/
theorem scanInt_digits {blanks digits rest : List UInt8} (hblank : ∀ b ∈ blanks, isSpace b = true)
    (hne : digits ≠ []) (hdigit : ∀ b ∈ digits, isDigit b = true)
    (hrest : ∀ b ∈ rest.head?, isDigit b = false) :
    scanInt (blanks ++ (digits ++ rest)) = some (decimal digits : Int) := by
  obtain ⟨d, ds, rfl⟩ := List.exists_cons_of_ne_nil hne
  obtain ⟨-, hspace, hminus, hplus⟩ := isDigit_facts (hdigit d List.mem_cons_self)
  have hdrop : (blanks ++ (d :: ds ++ rest)).dropWhile isSpace = d :: (ds ++ rest) := by
    rw [List.dropWhile_append_of_pos hblank, List.cons_append, List.dropWhile_cons_of_neg (by simp [hspace])]
  have htake : (d :: (ds ++ rest)).takeWhile isDigit = d :: ds := by
    rw [← List.cons_append, List.takeWhile_append_of_pos hdigit]
    cases rest with
    | nil => rw [List.takeWhile_nil, List.append_nil]
    | cons r rest => rw [List.takeWhile_cons_of_neg (by simp [hrest r rfl]), List.append_nil]
  rw [scanInt_of_dropWhile hdrop hminus hplus, htake, if_neg hne]

theorem takeWhile_isDigit_line (l rest : List UInt8) : (l ++ 10 :: rest).takeWhile isDigit = l.takeWhile isDigit := by
  induction l with
  | nil => rfl
  | cons b l ih => rw [List.cons_append, List.takeWhile_cons, List.takeWhile_cons, ih]

/-- A line that is not blank is read for itself. -/
theorem scanInt_append_line {line : List UInt8} (hline : ∃ b ∈ line, isSpace b = false) (rest : List UInt8) :
    scanInt (line ++ 10 :: rest) = scanInt line := by
  obtain ⟨b, hb, hspace⟩ := hline
  have hne : line.dropWhile isSpace ≠ [] := by
    intro hnil
    rw [List.dropWhile_eq_nil_iff] at hnil
    exact Bool.false_ne_true (hspace.symm.trans (hnil b hb))
  obtain ⟨c, w, hw⟩ := List.exists_cons_of_ne_nil hne
  have hdrop : (line ++ 10 :: rest).dropWhile isSpace = c :: (w ++ 10 :: rest) := by
    rw [List.dropWhile_append, if_neg (by rwa [List.isEmpty_iff]), hw, List.cons_append]
  by_cases hminus : c = 45
  · rw [scanInt, scanInt, hdrop, hw, hminus]
    simp only [takeWhile_isDigit_line]
  · by_cases hplus : c = 43
    · rw [scanInt, scanInt, hdrop, hw, hplus]
      simp only [takeWhile_isDigit_line]
    · rw [scanInt_of_dropWhile hdrop hminus hplus, scanInt_of_dropWhile hw hminus hplus, ← List.cons_append,
        takeWhile_isDigit_line]

/-- What is read as a number is not blank. -/
theorem exists_of_scanInt {text : List UInt8} {v : Int} (h : scanInt text = some v) :
    ∃ b ∈ text, isSpace b = false := by
  by_contra hblank
  have hall : ∀ b ∈ text, isSpace b = true := by
    intro b hb
    cases hspace : isSpace b with
    | true => rfl
    | false => exact absurd ⟨b, hb, hspace⟩ hblank
  rw [scanInt, List.dropWhile_eq_nil_iff.mpr hall] at h
  cases h

end ProgrammingPath.Rtsp
