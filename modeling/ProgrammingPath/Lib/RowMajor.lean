import Mathlib.Data.List.GetD
import Mathlib.Tactic.Ring

/-!
# Tables in row-major order

The cells of a table, one row behind the other. Two tables of one shape have the same cells in this order
only if they are equal.
-/

namespace ProgrammingPath.Lib

variable {α : Type}

/-- The cells of `n` rows of length `k`. -/
def rowMajor (n k : Nat) (cell : Nat → Nat → α) : List α :=
  (List.range n).flatMap fun r => (List.range k).map (cell r)

variable {n k : Nat} {cell cell' : Nat → Nat → α}

@[simp] theorem rowMajor_zero : rowMajor 0 k cell = [] := rfl

theorem rowMajor_succ : rowMajor (n + 1) k cell =
    (List.range k).map (cell 0) ++ rowMajor n k fun r => cell (r + 1) := by
  rw [rowMajor, List.range_succ_eq_map, List.flatMap_cons, List.flatMap_map]
  rfl

@[simp] theorem length_rowMajor : (rowMajor n k cell).length = n * k := by
  induction n generalizing cell with
  | zero => rw [rowMajor_zero, List.length_nil, Nat.zero_mul]
  | succ n ih => rw [rowMajor_succ, List.length_append, List.length_map, List.length_range, ih, Nat.succ_mul,
      Nat.add_comm]

/-- Where a cell is. -/
theorem rowMajor_getD {r c : Nat} (d : α) (hr : r < n) (hc : c < k) :
    (rowMajor n k cell).getD (r * k + c) d = cell r c := by
  induction n generalizing r cell with
  | zero => omega
  | succ n ih =>
    have hlen : ((List.range k).map (cell 0)).length = k := by rw [List.length_map, List.length_range]
    rw [rowMajor_succ]
    cases r with
    | zero =>
      rw [Nat.zero_mul, Nat.zero_add, List.getD_append _ _ _ _ (by rwa [hlen]),
        List.getD_eq_getElem _ _ (by rwa [hlen]), List.getElem_map, List.getElem_range]
    | succ r =>
      have hoff : (r + 1) * k + c = k + (r * k + c) := by ring
      rw [hoff, List.getD_append_right _ _ _ _ (by omega), hlen, Nat.add_sub_cancel_left, ih (by omega)]

/-- The order tells the cells. -/
theorem rowMajor_inj : rowMajor n k cell = rowMajor n k cell' ↔ ∀ r < n, ∀ c < k, cell r c = cell' r c := by
  induction n generalizing cell cell' with
  | zero => exact iff_of_true rfl fun r hr => absurd hr (Nat.not_lt_zero r)
  | succ n ih =>
    have hfirst : (List.range k).map (cell 0) = (List.range k).map (cell' 0) ↔
        ∀ c < k, cell 0 c = cell' 0 c := by
      rw [List.map_inj_left]
      simp only [List.mem_range]
    have hsplit : rowMajor (n + 1) k cell = rowMajor (n + 1) k cell' ↔
        (List.range k).map (cell 0) = (List.range k).map (cell' 0) ∧
          rowMajor n k (fun r => cell (r + 1)) = rowMajor n k fun r => cell' (r + 1) := by
      rw [rowMajor_succ, rowMajor_succ]
      constructor
      · exact fun h => List.append_inj h (by rw [List.length_map, List.length_map])
      · exact fun h => by rw [h.1, h.2]
    rw [hsplit, hfirst, ih]
    constructor
    · rintro ⟨h0, hrest⟩ r hr c hc
      cases r with
      | zero => exact h0 c hc
      | succ r => exact hrest r (by omega) c hc
    · exact fun h => ⟨fun c hc => h 0 (by omega) c hc, fun r hr c hc => h (r + 1) (by omega) c hc⟩

/-- The cells of a table that is filled one by one. -/
theorem rowMajor_consecutive (g : Nat → α) :
    rowMajor n k (fun r c => g (r * k + c)) = (List.range (n * k)).map g := by
  induction n generalizing g with
  | zero => rw [rowMajor_zero, Nat.zero_mul, List.range_zero, List.map_nil]
  | succ n ih =>
    have hrest : (rowMajor n k fun r c => g ((r + 1) * k + c)) =
        (List.range (n * k)).map fun i => g (k + i) := by
      rw [← ih]
      congr 1
      funext r c
      congr 1
      ring
    rw [rowMajor_succ, hrest, Nat.succ_mul, Nat.add_comm (n * k), List.range_add, List.map_append,
      List.map_map]
    congr 1
    apply List.map_congr_left
    intro c _
    rw [Nat.zero_mul, Nat.zero_add]

end ProgrammingPath.Lib
