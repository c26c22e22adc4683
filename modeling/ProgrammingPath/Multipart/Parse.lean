import Mathlib.Data.List.Infix
import ProgrammingPath.Lib.CString

/-!
# Parsing `multipart/form-data`

`http_from_data_parse` runs over the body of a request and calls a function for every part. A memory is the list of the bytes
from `bodyptr` on, the body and whatever is behind it; behind the list there are zeros. The searches for the header, for its
end and for the next delimiter compare without regard to the end of the body, and only the place where a comparison starts
is kept inside.
-/

namespace ProgrammingPath.Multipart

open ProgrammingPath.Lib

/-! ## The functions -/

/-- `from_data_boundary_cmp`: `*end_index`, and `none` for -1. -/
def fromDataBoundaryCmp (boundary ptr : List UInt8) : Option Nat :=
  if [45, 45] ++ boundary <+: ptr then
    if [13, 10] <+: ptr.drop (2 + boundary.length) then some (2 + boundary.length + 2)
    else if [10] <+: ptr.drop (2 + boundary.length) then some (2 + boundary.length + 1)
    else if [45, 45] <+: ptr.drop (2 + boundary.length) then some (2 + boundary.length + 2)
    else none
  else none

/-- `form_data_boundary_find_next`, with `left` bytes to the end; `none` for -1. -/
def formDataBoundaryFindNext (boundary : List UInt8) : Nat → List UInt8 → Option Nat
  | 0, _ => none
  | left + 1, ptr =>
    if (fromDataBoundaryCmp boundary ptr).isSome then some 0
    else (formDataBoundaryFindNext boundary left ptr.tail).map (· + 1)

/-- `http_header_get`: the memory from the name on. -/
def httpHeaderGet (name : List UInt8) : List UInt8 → Option (List UInt8)
  | [] => none
  | b :: rest =>
    if b = 0 ∨ [13, 10, 13, 10] <+: b :: rest ∨ [10, 10] <+: b :: rest then none
    else if name <+: b :: rest then some (b :: rest)
    else httpHeaderGet name rest

/-- The text in `form_data_name`: at most as many bytes as the array has. A line without end goes on to the end of the
memory. -/
def formDataName (ptr : List UInt8) : List UInt8 :=
  match httpHeaderGet (text "Content-Disposition:") ptr with
  | none => []
  | some header =>
    let value := header.drop (text "Content-Disposition:").length
    let value := if value.head? = some 32 then value.tail else value
    cstr ((value.takeWhile fun b => b != 10 && b != 13).take 100)

/-- The loop that looks for the end of the header: how far `ptr` is moved. -/
def skipHeader : Nat → List UInt8 → Nat
  | 0, _ => 0
  | left + 1, ptr =>
    if [13, 10, 13, 10] <+: ptr then 4
    else if [10, 10] <+: ptr then 2
    else skipHeader left ptr.tail + 1

/-- The arguments of `func_form_data`, with the bytes they stand for. -/
structure Callback where
  dispositionstr : List UInt8
  bodystr : List UInt8
  size : Int
  deriving DecidableEq, Repr

/-- A turn of the loop of `http_from_data_parse`: what is called, and where `ptr` is afterwards. -/
def turn (boundary mem : List UInt8) (size ptr : Nat) : Option Callback × Nat :=
  match fromDataBoundaryCmp boundary (mem.drop ptr) with
  | none => (none, ptr + 1)
  | some endindex =>
    let ptr := ptr + endindex
    if ptr + 1 < size then
      let name := formDataName (mem.drop ptr)
      let ptr := ptr + skipHeader (size - ptr) (mem.drop ptr)
      if ptr < size then
        match formDataBoundaryFindNext boundary (size - ptr) (mem.drop ptr) with
        | none => (none, ptr + 1)
        | some found =>
          let ret : Int :=
            if mem.getD (ptr - 1) 0 = 10 ∧ mem.getD (ptr - 2) 0 = 13 then found - 2 else found
          (some ⟨name, (mem.drop ptr).take ret.toNat, ret⟩, (ptr + ret).toNat)
      else (none, ptr + 1)
    else (none, ptr + 1)

/-- The loop. Every turn moves `ptr`, so `fuel` bytes are as many turns as there can be. -/
def parseLoop (boundary mem : List UInt8) (size : Nat) : Nat → Nat → List Callback
  | 0, _ => []
  | fuel + 1, ptr =>
    if ptr < size then
      (turn boundary mem size ptr).1.toList ++
        parseLoop boundary mem size fuel (turn boundary mem size ptr).2
    else []

/-- `http_from_data_parse(boundary, mem, size, ...)`. -/
def httpFromDataParse (boundary mem : List UInt8) (size : Nat) : List Callback :=
  parseLoop boundary mem size size 0

/-! ## Progress -/

variable {boundary mem ptr rest : List UInt8} {size left fuel fuel' p k : Nat}

theorem fromDataBoundaryCmp_pos (h : fromDataBoundaryCmp boundary ptr = some k) : 0 < k := by
  rw [fromDataBoundaryCmp] at h
  split_ifs at h <;> cases h <;> omega

/-- An end of the header that was found has at least two bytes. -/
theorem two_le_skipHeader (h : skipHeader left ptr < left) : 2 ≤ skipHeader left ptr := by
  induction left generalizing ptr with
  | zero => omega
  | succ left ih =>
    rw [skipHeader] at h ⊢
    split_ifs at h ⊢ with h4 h2
    · omega
    · omega
    · have hrest : skipHeader left ptr.tail < left := by omega
      have htwo := ih hrest
      omega

theorem lt_turn (boundary mem : List UInt8) (size p : Nat) : p < (turn boundary mem size p).2 := by
  rw [turn]
  split
  · exact Nat.lt_succ_self p
  · next endindex hcmp =>
    have hpos := fromDataBoundaryCmp_pos hcmp
    dsimp only
    split
    · split
      · next hlt =>
        have htwo : 2 ≤ skipHeader (size - (p + endindex)) (mem.drop (p + endindex)) :=
          two_le_skipHeader (by omega)
        split
        · show p < _
          omega
        · show p < Int.toNat _
          split <;> omega
      · show p < _
        omega
    · show p < _
      omega

theorem parseLoop_of_le (h : size ≤ p) : parseLoop boundary mem size fuel p = [] := by
  cases fuel with
  | zero => rfl
  | succ fuel => rw [parseLoop, if_neg (by omega)]

/-- What is called from a place on. -/
def parseFrom (boundary mem : List UInt8) (size p : Nat) : List Callback :=
  parseLoop boundary mem size (size - p) p

theorem httpFromDataParse_eq : httpFromDataParse boundary mem size = parseFrom boundary mem size 0 := rfl

theorem parseFrom_of_le (h : size ≤ p) : parseFrom boundary mem size p = [] := parseLoop_of_le h

/-- More turns than there are bytes change nothing. -/
theorem parseLoop_fuel (h : size - p ≤ fuel) :
    parseLoop boundary mem size fuel p = parseFrom boundary mem size p := by
  induction fuel using Nat.strong_induction_on generalizing p with
  | _ fuel ih =>
    by_cases hlt : p < size
    · have hnext := lt_turn boundary mem size p
      obtain ⟨n, rfl⟩ := Nat.exists_eq_succ_of_ne_zero (show fuel ≠ 0 by omega)
      rw [parseFrom, show size - p = size - p - 1 + 1 by omega, parseLoop, parseLoop, if_pos hlt,
        if_pos hlt]
      congr 1
      by_cases hn : size - p - 1 < n + 1
      · rw [ih n (Nat.lt_succ_self n) (by omega), ih (size - p - 1) hn (by omega)]
      · have heq : size - p - 1 = n := by omega
        rw [heq]
    · rw [parseLoop_of_le (by omega), parseFrom_of_le (by omega)]

theorem parseFrom_of_lt (h : p < size) :
    parseFrom boundary mem size p =
      (turn boundary mem size p).1.toList ++
        parseFrom boundary mem size (turn boundary mem size p).2 := by
  have hnext := lt_turn boundary mem size p
  rw [parseFrom, show size - p = size - p - 1 + 1 by omega, parseLoop, if_pos h,
    parseLoop_fuel (by omega)]

/-- Where no delimiter begins, the loop goes on. -/
theorem parseFrom_skip {q : Nat}
    (h : ∀ i, p ≤ i → i < q → fromDataBoundaryCmp boundary (mem.drop i) = none) (hpq : p ≤ q) (hq : q ≤ size) :
    parseFrom boundary mem size p = parseFrom boundary mem size q := by
  induction q, hpq using Nat.le_induction with
  | base => rfl
  | succ q hpq ih =>
    rw [ih (fun i hp hi => h i hp (Nat.lt_succ_of_lt hi)) (Nat.le_of_succ_le hq), parseFrom_of_lt hq, turn,
      h q hpq (Nat.lt_succ_self q)]
    rfl

end ProgrammingPath.Multipart
