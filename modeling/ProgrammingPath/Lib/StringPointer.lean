import ProgrammingPath.Lib.CString
import ProgrammingPath.Lib.Memory

/-!
# Pointers into a string

A program that takes a string apart keeps pointers into it, compares them and copies what lies between two of them.
Here they are offsets into the bytes before the NUL.
-/

namespace ProgrammingPath.Lib

/-- The byte at an offset, with the NUL behind the string. -/
def charAt (str : List UInt8) (i : Nat) : UInt8 := str.getD i 0

/-- `strchr` from a pointer on. -/
def strchr (str : List UInt8) (ptr : Nat) (c : UInt8) : Option Nat :=
  ((str.drop ptr).findIdx? (· == c)).map (ptr + ·)

/-- `strncpy` of what lies between two pointers into a field of so many bytes: `none` when the first pointer is behind
the second one, or the field is too short. -/
def copyBetween (field : Mem) (size : Nat) (str : List UInt8) (start stop : Nat) : Option Mem :=
  if start ≤ stop ∧ stop - start ≤ size then
    let part := (str.drop start).take (stop - start)
    some (field.write 0 (part ++ List.replicate (stop - start - part.length) 0))
  else none

/-- The string in a field. -/
def fieldText (field : Mem) (size : Nat) : List UInt8 := cstr (field.bytes 0 size)

variable {a l r : List UInt8} {c : UInt8} {i q size : Nat} {field : Mem}

theorem charAt_append (a r : List UInt8) (i : Nat) : charAt (a ++ r) (a.length + i) = charAt r i := by
  rw [charAt, List.getD_append_right _ _ _ _ (Nat.le_add_right _ _), Nat.add_sub_cancel_left, charAt]

theorem charAt_append_left (h : i < a.length) : charAt (a ++ r) i = charAt a i := by
  rw [charAt, List.getD_append _ _ _ _ h, charAt]

theorem charAt_mem (h : i < a.length) : charAt a i ∈ a := by
  rw [charAt, List.getD_eq_getElem _ _ h]
  exact List.getElem_mem h

theorem charAt_length (a r : List UInt8) : charAt (a ++ r) a.length = charAt r 0 := charAt_append a r 0

/-- A byte that does not occur in a part is nowhere in it, nor behind it if the rest begins with another one. -/
theorem charAt_ne (hl : c ∉ l) (hr : charAt r 0 ≠ c) (h1 : a.length ≤ q) (h2 : q ≤ a.length + l.length) :
    charAt (a ++ (l ++ r)) q ≠ c := by
  obtain ⟨i, rfl⟩ := Nat.exists_eq_add_of_le h1
  rw [charAt_append]
  by_cases hi : i < l.length
  · rw [charAt_append_left hi]
    intro heq
    exact hl (heq ▸ charAt_mem hi)
  · rw [show i = l.length by omega, charAt_length]
    exact hr

theorem findIdx?_of_notMem (hl : c ∉ l) (r : List UInt8) :
    (l ++ c :: r).findIdx? (· == c) = some l.length := by
  induction l with
  | nil => rw [List.nil_append, List.findIdx?_cons, if_pos (beq_self_eq_true c), List.length_nil]
  | cons b l ih =>
    rw [List.mem_cons, not_or] at hl
    have hb : (b == c) = false := beq_eq_false_iff_ne.mpr (Ne.symm hl.1)
    rw [List.cons_append, List.findIdx?_cons, if_neg (by rw [hb]; exact Bool.false_ne_true), ih hl.2,
      Option.map_some, List.length_cons]

/-- The first occurrence is behind a part without one. -/
theorem strchr_append (hl : c ∉ l) (r : List UInt8) :
    strchr (a ++ (l ++ c :: r)) a.length c = some (a.length + l.length) := by
  rw [strchr, List.drop_left, findIdx?_of_notMem hl, Option.map_some]

theorem strchr_none (hl : c ∉ l) : strchr (a ++ l) a.length c = none := by
  have hnone : l.findIdx? (· == c) = none := by
    rw [List.findIdx?_eq_none_iff]
    intro b hb
    rw [beq_eq_false_iff_ne]
    rintro rfl
    exact hl hb
  rw [strchr, List.drop_left, hnone, Option.map_none]

/-- A part that fits is copied as it is. -/
theorem copyBetween_eq (field : Mem) (hsize : l.length ≤ size) (r : List UInt8) :
    copyBetween field size (a ++ (l ++ r)) a.length (a.length + l.length) = some (field.write 0 l) := by
  have hcond : a.length ≤ a.length + l.length ∧ a.length + l.length - a.length ≤ size := by omega
  rw [copyBetween, if_pos hcond]
  simp only [List.drop_left, Nat.add_sub_cancel_left, List.take_left, Nat.sub_self, List.replicate_zero,
    List.append_nil]

/-- A string in a field that was clear. -/
theorem fieldText_write (h0 : 0 ∉ l) (hsize : l.length ≤ size) : fieldText (Mem.zero.write 0 l) size = l := by
  obtain ⟨k, rfl⟩ := Nat.exists_eq_add_of_le hsize
  have hrest : (Mem.zero.write 0 l).bytes (0 + l.length) k = List.replicate k 0 := by
    rw [Mem.bytes_write_of_disjoint _ (Or.inr le_rfl)]
    apply List.ext_getElem (by rw [Mem.length_bytes, List.length_replicate])
    intro i h1 h2
    rw [Mem.getElem_bytes, List.getElem_replicate]
    rfl
  have hzeros : cstr (List.replicate k 0) = [] := by
    cases k with
    | zero => rfl
    | succ k => rfl
  rw [fieldText, Mem.bytes_add, Mem.bytes_write_self, hrest, cstr_append h0, hzeros, List.append_nil]

theorem fieldText_zero : fieldText Mem.zero size = [] := by
  have h : fieldText (Mem.zero.write 0 []) size = [] := fieldText_write List.not_mem_nil (Nat.zero_le size)
  rwa [Mem.write_nil] at h

/-- An occurrence stays the first one when the text goes on. -/
theorem indexOf_append_of_some {needle : List UInt8} (h : indexOf needle l = some i) (r : List UInt8) :
    indexOf needle (l ++ r) = some i := by
  induction l generalizing i with
  | nil =>
    rw [indexOf] at h
    split at h
    · next hnil => cases h; exact indexOf_of_prefix (hnil ▸ List.nil_prefix)
    · cases h
  | cons b l ih =>
    rw [indexOf] at h
    split at h
    · next hpre =>
      cases h
      exact indexOf_of_prefix (hpre.trans (List.prefix_append _ _))
    · next hpre =>
      obtain ⟨j, hj, rfl⟩ := Option.map_eq_some_iff.mp h
      have hin : needle.length ≤ (b :: l).length := by
        by_cases hne : needle = []
        · rw [hne]; exact Nat.zero_le _
        · have hinfix := (indexOf_isSome_iff hne).mp (by rw [hj]; rfl)
          exact Nat.le_succ_of_le hinfix.length_le
      have hlong : ¬needle <+: b :: (l ++ r) := fun hlong =>
        hpre (List.prefix_of_prefix_length_le hlong (List.prefix_append (b :: l) r) hin)
      rw [List.cons_append, indexOf, if_neg hlong, ih hj, Option.map_some]

/-- Where a text is found, it is. -/
theorem prefix_of_indexOf {needle : List UInt8} (h : indexOf needle l = some i) : needle <+: l.drop i := by
  induction l generalizing i with
  | nil =>
    rw [indexOf] at h
    split at h
    · next hnil => rw [hnil]; exact List.nil_prefix
    · cases h
  | cons b l ih =>
    rw [indexOf] at h
    split at h
    · next hpre => cases h; exact hpre
    · obtain ⟨j, hj, rfl⟩ := Option.map_eq_some_iff.mp h
      exact ih hj

end ProgrammingPath.Lib
