import Mathlib.Data.List.GetD
import Mathlib.Tactic.Ring

/-!
# Memory behind a pointer

The bytes around a C pointer: offset `0` is what the pointer points at, and offsets on both sides of
the object are cells too, so that a program that leaves its buffer can be followed as far as it
goes. `write` is what `memcpy`, `read` and `recv` do to it, `bytes` is what a caller then finds.
-/

namespace ProgrammingPath.Lib

/-- The bytes at every offset from a pointer. -/
def Mem : Type := Int → UInt8

namespace Mem

/-- Memory that `memset` cleared. -/
def zero : Mem := fun _ => 0

/-- Copy bytes to an offset. -/
def write (m : Mem) (off : Int) (bs : List UInt8) : Mem := fun i =>
  if off ≤ i ∧ i < off + bs.length then bs.getD (i - off).toNat 0 else m i

/-- The `n` bytes from an offset on. -/
def bytes (m : Mem) (off : Int) (n : Nat) : List UInt8 :=
  (List.range n).map fun k : Nat => m (off + k)

variable (m : Mem) {off off' : Int} {bs : List UInt8} {n k : Nat}

@[simp] theorem length_bytes : (m.bytes off n).length = n := by
  rw [bytes, List.length_map, List.length_range]

@[simp] theorem bytes_zero : m.bytes off 0 = [] := rfl

theorem bytes_add : m.bytes off (n + k) = m.bytes off n ++ m.bytes (off + n) k := by
  rw [bytes, bytes, bytes, List.range_add, List.map_append, List.map_map]
  congr 1
  apply List.map_congr_left
  intro i _
  show m (off + ((n + i : Nat) : Int)) = m (off + n + i)
  congr 1
  push_cast
  ring

theorem bytes_succ : m.bytes off (n + 1) = m off :: m.bytes (off + 1) n := by
  rw [Nat.add_comm, bytes_add, bytes, List.range_one, List.map_singleton, Int.natCast_zero,
    Int.add_zero]
  rfl

/-- Two parts of what is there. -/
theorem bytes_eq_append {as bs : List UInt8} (h : m.bytes off (as.length + bs.length) = as ++ bs) :
    m.bytes off as.length = as ∧ m.bytes (off + as.length) bs.length = bs := by
  rw [bytes_add] at h
  exact List.append_inj h (length_bytes m)

theorem getElem_bytes {i : Nat} (hi : i < (m.bytes off n).length) :
    (m.bytes off n)[i] = m (off + i) := by
  simp only [bytes, List.getElem_map, List.getElem_range]

theorem getD_bytes {i : Nat} (hi : i < n) : (m.bytes off n).getD i 0 = m (off + i) := by
  have hlen : i < (m.bytes off n).length := by rwa [length_bytes]
  rw [List.getD_eq_getElem _ _ hlen, getElem_bytes]

theorem take_bytes (h : k ≤ n) : (m.bytes off n).take k = m.bytes off k := by
  obtain ⟨j, rfl⟩ := Nat.exists_eq_add_of_le h
  rw [bytes_add, List.take_left' (length_bytes m)]

theorem drop_bytes : (m.bytes off n).drop k = m.bytes (off + k) (n - k) := by
  by_cases h : k ≤ n
  · obtain ⟨j, rfl⟩ := Nat.exists_eq_add_of_le h
    rw [bytes_add, List.drop_left' (length_bytes m), Nat.add_sub_cancel_left]
  · rw [Nat.sub_eq_zero_of_le (Nat.le_of_not_le h), bytes_zero]
    exact List.drop_eq_nil_of_le (by rw [length_bytes]; omega)

/-- What was written is there. -/
@[simp] theorem bytes_write_self : (m.write off bs).bytes off bs.length = bs := by
  apply List.ext_getElem (length_bytes _)
  intro i h1 h2
  rw [getElem_bytes, write, if_pos ⟨by omega, by omega⟩, show (off + i - off).toNat = i by omega,
    List.getD_eq_getElem _ _ h2]

/-- What lies outside the written bytes is as it was. -/
theorem bytes_write_of_disjoint (h : off' + n ≤ off ∨ off + bs.length ≤ off') :
    (m.write off bs).bytes off' n = m.bytes off' n := by
  apply List.ext_getElem (by rw [length_bytes, length_bytes])
  intro i h1 h2
  rw [length_bytes] at h1
  rw [getElem_bytes, getElem_bytes, write, if_neg (by omega)]

/-- Bytes written right behind others continue them. -/
theorem bytes_write_append (h : off' = off + n) :
    (m.write off' bs).bytes off (n + bs.length) = m.bytes off n ++ bs := by
  subst h
  rw [bytes_add, bytes_write_of_disjoint m (Or.inl le_rfl), bytes_write_self]

@[simp] theorem write_nil : m.write off [] = m := by
  funext i
  rw [write, if_neg (by rw [List.length_nil]; omega)]

/-- What is there may be written again. -/
theorem write_bytes_self : m.write off (m.bytes off n) = m := by
  funext i
  rw [write]
  split
  · next h =>
    rw [length_bytes] at h
    rw [List.getD_eq_getElem _ _ (by rw [length_bytes]; omega), getElem_bytes]
    congr 1
    omega
  · rfl

/-- Bytes written right behind others are as good as all of them at once. -/
theorem write_write (as : List UInt8) (h : off' = off + as.length) :
    (m.write off as).write off' bs = m.write off (as ++ bs) := by
  subst h
  funext i
  simp only [write, List.length_append]
  by_cases h1 : off ≤ i ∧ i < off + as.length
  · rw [if_neg (by omega), if_pos h1, if_pos (by omega), List.getD_append _ _ _ _ (by omega)]
  · by_cases h2 : off + as.length ≤ i ∧ i < off + as.length + bs.length
    · rw [if_pos h2, if_pos (by omega), List.getD_append_right _ _ _ _ (by omega)]
      congr 1
      omega
    · rw [if_neg h2, if_neg h1, if_neg (by omega)]

section

variable {m} {bs' : List UInt8}

/-- What is written at an offset. -/
theorem write_getD {i : Nat} (hi : i < bs.length) : m.write 0 bs i = bs.getD i 0 := by
  rw [write, if_pos (by omega), show ((i : Int) - 0).toNat = i by omega]

/-- What two writes of one length leave tells what was written. -/
theorem write_inj (hlen : bs.length = bs'.length) (h : m.write off bs = m.write off bs') : bs = bs' := by
  have hback : (m.write off bs).bytes off bs.length = bs := bytes_write_self m
  rw [← hback, h, hlen, bytes_write_self]

/-- Writes to different places may change their order. -/
theorem write_comm (h : off + bs.length ≤ off') :
    (m.write off' bs').write off bs = (m.write off bs).write off' bs' := by
  funext i
  simp only [write]
  by_cases h1 : off ≤ i ∧ i < off + bs.length
  · have h2 : ¬(off' ≤ i ∧ i < off' + bs'.length) := by omega
    simp only [if_pos h1, if_neg h2]
  · simp only [if_neg h1]

/-- What goes to two places by turns might go there one after the other. -/
theorem write_turns {as as' : List UInt8} (h : off + (as.length + bs.length : Nat) ≤ off') :
    (((m.write off as).write off' as').write (off + as.length) bs).write (off' + as'.length) bs' =
      (m.write off (as ++ bs)).write off' (as' ++ bs') := by
  have hbefore : off + as.length + bs.length ≤ off' := by
    push_cast at h
    omega
  rw [write_comm hbefore, write_write _ _ rfl, write_write _ _ rfl]

end

end Mem

end ProgrammingPath.Lib
