import Mathlib.Data.List.Infix

/-!
# Reading a text by a list of rules

Every rule has a text it looks for. A text is read from left to right: the first rule of the list whose text is there
takes it, and where there is none the next element is kept. `scan` is what is done one after the other (`Piece`), and
`render` puts together what comes out.
-/

namespace ProgrammingPath.Lib

/-- A step of the scan: an element is kept, or a rule takes its text. -/
inductive Piece (α ρ : Type)
  | keep (a : α)
  | take (r : ρ)
  deriving DecidableEq, Repr

/-- What the steps write. -/
def render {α ρ : Type} (write : ρ → List α) : List (Piece α ρ) → List α
  | [] => []
  | .keep a :: ps => a :: render write ps
  | .take r :: ps => write r ++ render write ps

variable {α ρ : Type} (look : ρ → List α)

/-- The rule finds its text, which is not empty, at the beginning. -/
def Finds (r : ρ) (l : List α) : Prop := look r ≠ [] ∧ look r <+: l

section

variable {look} {r : ρ} {l : List α}

theorem Finds.length_pos (h : Finds look r l) : 0 < (look r).length := List.length_pos_iff.mpr h.1

/-- What is found in a part is found in the whole. -/
theorem Finds.of_take {n : Nat} (h : Finds look r (l.take n)) : Finds look r l :=
  ⟨h.1, h.2.trans (List.take_prefix n l)⟩

theorem Finds.length_drop_lt (h : Finds look r l) : (l.drop (look r).length).length < l.length := by
  have hpos := h.length_pos
  have hle := h.2.length_le
  rw [List.length_drop]
  omega

end

variable [DecidableEq α]

instance (r : ρ) (l : List α) : Decidable (Finds look r l) := inferInstanceAs (Decidable (_ ∧ _))

/-- The first rule that finds its text. -/
def firstFound (rules : List ρ) (l : List α) : Option ρ := rules.find? fun r => Finds look r l

variable {look} {rules : List ρ} {r : ρ} {l : List α}

theorem finds_of_firstFound (h : firstFound look rules l = some r) : Finds look r l := by
  simpa using List.find?_some h

theorem firstFound_eq_none_iff : firstFound look rules l = none ↔ ∀ r ∈ rules, ¬Finds look r l := by
  simp [firstFound]

theorem firstFound_nil : firstFound look rules [] = none := by
  rw [firstFound_eq_none_iff]
  rintro r - ⟨hne, hpre⟩
  exact hne (List.prefix_nil.mp hpre)

variable (look rules) in
/-- The steps of the scan. -/
def scan (l : List α) : List (Piece α ρ) :=
  match _h : firstFound look rules l with
  | some r => .take r :: scan (l.drop (look r).length)
  | none =>
    match l with
    | [] => []
    | a :: l => .keep a :: scan l
termination_by l.length
decreasing_by
  · exact (finds_of_firstFound _h).length_drop_lt
  · exact Nat.lt_succ_self _

theorem scan_of_some (h : firstFound look rules l = some r) :
    scan look rules l = .take r :: scan look rules (l.drop (look r).length) := by
  rw [scan]
  split
  · next r' h' =>
    rw [h] at h'
    cases h'
    rfl
  · next h' =>
    rw [h] at h'
    cases h'

theorem scan_nil : scan look rules [] = [] := by
  rw [scan]
  split
  · next h =>
    rw [firstFound_nil] at h
    cases h
  · rfl

theorem scan_of_none {a : α} (h : firstFound look rules (a :: l) = none) :
    scan look rules (a :: l) = .keep a :: scan look rules l := by
  rw [scan]
  split
  · next h' =>
    rw [h] at h'
    cases h'
  · rfl

/-- The first step is a rule if and only if it is the first one that finds its text. -/
theorem take_cons_eq_scan_iff {ps : List (Piece α ρ)} :
    .take r :: ps = scan look rules l ↔
      firstFound look rules l = some r ∧ ps = scan look rules (l.drop (look r).length) := by
  cases h : firstFound look rules l with
  | some r' =>
    rw [scan_of_some h, List.cons.injEq, Piece.take.injEq, Option.some.injEq]
    constructor
    · rintro ⟨rfl, rfl⟩
      exact ⟨rfl, rfl⟩
    · rintro ⟨rfl, rfl⟩
      exact ⟨rfl, rfl⟩
  | none =>
    cases l with
    | nil => simp [scan_nil]
    | cons a l => simp [scan_of_none h]

end ProgrammingPath.Lib
