import Mathlib.Algebra.Group.Int.Defs
import ProgrammingPath.Lib.CString
import ProgrammingPath.Qt.Text

/-!
# Numbers in texts

The program prints its numbers with `QString::sprintf("%d")`, keeps a list of them as one text with
commas between, and takes it apart again with `split(',')` and `toInt`.
-/

namespace ProgrammingPath.Qt.QString

open ProgrammingPath.Lib

/-- `sprintf("%d")`. -/
def number (v : Int32) : QString :=
  if v.toInt < 0 then 0x2D :: digitsText v.toInt.natAbs else digitsText v.toInt.natAbs

def isSpace (b : UInt8) : Bool := b == 0x20 || (0x09 ≤ b && b ≤ 0x0D)

/-- A text without the blanks around it. -/
def trimmed (s : QString) : QString := (s.dropWhile isSpace).reverse.dropWhile isSpace |>.reverse

/-- The number that digits say. -/
def unsigned (s : QString) : Option Nat := if s = [] then none else digits s

/-- The number that digits say behind a sign. -/
def signed : QString → Option Int
  | 0x2D :: t => (unsigned t).map fun (n : Nat) => -(n : Int)
  | 0x2B :: t => (unsigned t).map Int.ofNat
  | t => (unsigned t).map Int.ofNat

/-- `toInt`: blanks may stand around the number; a text that is not a number, or not one of 32 bits,
is `0`. -/
def toInt (s : QString) : Int32 :=
  match signed (trimmed s) with
  | some v => if -2 ^ 31 ≤ v ∧ v < 2 ^ 31 then Int32.ofInt v else 0
  | none => 0

/-- `split(',')`. -/
def split (s : QString) : List QString := s.splitOn 0x2C

/-- The loop that writes a list: the numbers with a comma behind each but the last. -/
def join (list : List Int32) : QString := [0x2C].intercalate (list.map number)

/-! ## What is written is read again -/

theorem digits_digitsText (n : Nat) : digits (digitsText n) = some n := by
  have hall : (digitsText n).all (fun b => 0x30 ≤ b && b ≤ 0x39) = true := by
    rw [List.all_eq_true]
    intro b hb
    simpa using digitsText_isDigit hb
  rw [digits, if_pos hall]
  exact congrArg some (foldl_digitsText n)

/-- A number is written with digits and a minus sign. -/
theorem mem_number {v : Int32} {b : UInt8} (hb : b ∈ number v) :
    b = 0x2D ∨ (0x30 ≤ b ∧ b ≤ 0x39) := by
  rw [number] at hb
  split at hb
  · rcases List.mem_cons.mp hb with hb | hb
    · exact .inl hb
    · exact .inr (digitsText_isDigit hb)
  · exact .inr (digitsText_isDigit hb)

theorem number_ne_nil (v : Int32) : number v ≠ [] := by
  rw [number]
  split
  · exact List.cons_ne_nil _ _
  · exact digitsText_ne_nil _

/-- Nothing is cut off from a text without blanks. -/
theorem trimmed_of_forall {s : QString} (h : ∀ b ∈ s, isSpace b = false) : trimmed s = s := by
  have hdrop : ∀ t : QString, (∀ b ∈ t, isSpace b = false) → t.dropWhile isSpace = t := by
    intro t ht
    cases t with
    | nil => rfl
    | cons b t => rw [List.dropWhile_cons_of_neg (by simp [ht b])]
  rw [trimmed, hdrop s h, hdrop s.reverse (fun b hb => h b (List.mem_reverse.mp hb)),
    List.reverse_reverse]

theorem unsigned_digitsText (n : Nat) : unsigned (digitsText n) = some n := by
  rw [unsigned, if_neg (digitsText_ne_nil n), digits_digitsText]

/-- A number that begins with a digit. -/
theorem signed_of_digit {b : UInt8} (hb : 0x30 ≤ b) (s : QString) :
    signed (b :: s) = (unsigned (b :: s)).map Int.ofNat := by
  unfold signed
  split
  · next heq =>
    obtain ⟨rfl, -⟩ := List.cons.inj heq
    exact absurd hb (by decide)
  · next heq =>
    obtain ⟨rfl, -⟩ := List.cons.inj heq
    exact absurd hb (by decide)
  · rfl

theorem signed_number (v : Int32) : signed (number v) = some v.toInt := by
  rw [number]
  split
  · next hneg =>
    show (unsigned (digitsText v.toInt.natAbs)).map (fun (n : Nat) => -(n : Int)) = some v.toInt
    rw [unsigned_digitsText, Option.map_some]
    congr 1
    omega
  · next hpos =>
    obtain ⟨d, ds, hds⟩ := List.exists_cons_of_ne_nil (digitsText_ne_nil v.toInt.natAbs)
    have hd : 48 ≤ d ∧ d ≤ 57 := digitsText_isDigit (by rw [hds]; exact List.mem_cons_self)
    rw [hds, signed_of_digit hd.1, ← hds, unsigned_digitsText, Option.map_some]
    congr 1
    show (v.toInt.natAbs : Int) = v.toInt
    omega

theorem toInt_number (v : Int32) : toInt (number v) = v := by
  have hspace : ∀ b ∈ number v, isSpace b = false := by
    intro b hb
    rcases mem_number hb with rfl | ⟨hlow, hhigh⟩
    · rfl
    · simp only [UInt8.le_iff_toNat_le] at hlow hhigh
      simp only [isSpace, Bool.or_eq_false_iff, beq_eq_false_iff_ne, ne_eq, ← UInt8.toNat_inj,
        Bool.and_eq_false_iff, decide_eq_false_iff_not, UInt8.le_iff_toNat_le]
      have h20 : (0x20 : UInt8).toNat = 32 := rfl
      have h0D : (0x0D : UInt8).toNat = 13 := rfl
      have h30 : (0x30 : UInt8).toNat = 48 := rfl
      omega
  rw [toInt, trimmed_of_forall hspace, signed_number]
  show (if -2 ^ 31 ≤ v.toInt ∧ v.toInt < 2 ^ 31 then Int32.ofInt v.toInt else 0) = v
  rw [if_pos ⟨v.le_toInt, v.toInt_lt⟩, Int32.ofInt_toInt]

/-! ## Lists of numbers -/

/-- The parts between the separators have none in them. -/
theorem notMem_of_mem_splitOn {sep : UInt8} {s part : QString} (h : part ∈ s.splitOn sep) :
    sep ∉ part := by
  induction s generalizing part with
  | nil =>
    obtain rfl := List.mem_singleton.mp h
    exact List.not_mem_nil
  | cons b s ih =>
    rw [List.splitOn, List.splitOnP_cons_eq_if_modifyHead] at h
    split at h
    · obtain rfl | h := List.mem_cons.mp h
      · exact List.not_mem_nil
      · exact ih h
    · next hb =>
      obtain ⟨first, rest, hs⟩ := List.exists_cons_of_ne_nil (List.splitOnP_ne_nil (· == sep) s)
      rw [hs, List.modifyHead_cons] at h
      have hmem : ∀ q ∈ first :: rest, sep ∉ q := fun q hq => ih (by rwa [List.splitOn, hs])
      obtain rfl | h := List.mem_cons.mp h
      · have hfirst := hmem first List.mem_cons_self
        simp only [List.mem_cons, not_or]
        exact ⟨fun he => hb (by simp [he]), hfirst⟩
      · exact hmem part (List.mem_cons_of_mem _ h)

theorem comma_notMem_number (v : Int32) : 0x2C ∉ number v := by
  intro hmem
  rcases mem_number hmem with hcomma | hdigit
  · exact absurd hcomma (by decide)
  · exact absurd hdigit (by decide)

theorem split_join {list : List Int32} (h : list ≠ []) : split (join list) = list.map number := by
  refine List.splitOn_intercalate _ ?_ (by simpa using h)
  intro l hl
  obtain ⟨v, -, rfl⟩ := List.mem_map.mp hl
  exact comma_notMem_number v

theorem join_ne_nil {list : List Int32} (h : list ≠ []) : join list ≠ [] := by
  intro hnil
  have hsplit := split_join h
  obtain ⟨v, list, rfl⟩ := List.exists_cons_of_ne_nil h
  rw [hnil] at hsplit
  exact number_ne_nil v (List.cons.inj hsplit).1.symm

/-- A list that is not empty comes back from its text. -/
theorem map_toInt_split_join {list : List Int32} (h : list ≠ []) :
    (split (join list)).map toInt = list := by
  have hid : toInt ∘ number = id := funext toInt_number
  rw [split_join h, List.map_map, hid, List.map_id]

end ProgrammingPath.Qt.QString
