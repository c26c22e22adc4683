import Mathlib.Data.List.Range
import Mathlib.Logic.Function.Basic

/-!
# Ring buffers

The contents of a ring of `cap` slots, from the slot `front` on: `contents slot cap front len`. The slots are a
function of their index. Writing the slot behind the last one appends an element, and moving `front` on takes the
first one away; the slots outside the contents do not matter.
-/

namespace ProgrammingPath.Lib.RingBuffer

variable {α : Type}

/-- The elements of a ring. -/
def contents (slot : Nat → α) (cap front len : Nat) : List α :=
  (List.range len).map fun i => slot ((front + i) % cap)

variable {slot slot' : Nat → α} {cap front len : Nat}

@[simp] theorem length_contents : (contents slot cap front len).length = len := by
  rw [contents, List.length_map, List.length_range]

/-- Slots at different distances from the front are different. -/
theorem index_ne {i j : Nat} (hij : i < j) (hj : j < cap) : (front + i) % cap ≠ (front + j) % cap := by
  intro heq
  have hzero := Nat.sub_mod_eq_zero_of_mod_eq heq.symm
  rw [show front + j - (front + i) = j - i by omega, Nat.mod_eq_of_lt (by omega)] at hzero
  omega

/-- Only the slots of the contents matter. -/
theorem contents_congr (h : ∀ i < len, slot' ((front + i) % cap) = slot ((front + i) % cap)) :
    contents slot' cap front len = contents slot cap front len :=
  List.map_congr_left fun i hi => h i (List.mem_range.mp hi)

/-- The first element. -/
theorem contents_succ :
    contents slot cap front (len + 1) =
      slot (front % cap) :: contents slot cap ((front + 1) % cap) len := by
  rw [contents, List.range_succ_eq_map, List.map_cons, List.map_map, Nat.add_zero]
  congr 1
  apply List.map_congr_left
  intro i _
  show slot ((front + (i + 1)) % cap) = slot (((front + 1) % cap + i) % cap)
  rw [Nat.mod_add_mod, Nat.add_assoc, Nat.add_comm 1 i]

/-- The last element. -/
theorem contents_concat :
    contents slot cap front (len + 1) = contents slot cap front len ++ [slot ((front + len) % cap)] := by
  rw [contents, List.range_succ, List.map_append, List.map_singleton]
  rfl

/-- The slot behind the last one is written. -/
theorem contents_update (h : len < cap) (x : α) :
    contents (Function.update slot ((front + len) % cap) x) cap front (len + 1) =
      contents slot cap front len ++ [x] := by
  rw [contents_concat, Function.update_self]
  congr 1
  apply contents_congr
  intro i hi
  exact Function.update_of_ne (index_ne hi h) ..

end ProgrammingPath.Lib.RingBuffer
