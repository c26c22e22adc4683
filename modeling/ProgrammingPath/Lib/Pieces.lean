import Mathlib.Data.List.Basic

/-!
# Texts made of pieces

Two texts that are cut into as many pieces, each piece of the first at least as long as its
counterpart: they are equal exactly if the pieces are. A piece that is too long cannot be made up
for by another one.
-/

namespace ProgrammingPath.Lib.Pieces

variable {α : Type}

/-- The first text of two that are cut alike, and the second. -/
def left (l : List (List α × List α)) : List α := l.flatMap Prod.fst
def right (l : List (List α × List α)) : List α := l.flatMap Prod.snd

/-- No piece of the first text is shorter than its counterpart. -/
def Covers (l : List (List α × List α)) : Prop := ∀ q ∈ l, q.2.length ≤ q.1.length

theorem length_right_le {l : List (List α × List α)} (h : Covers l) :
    (right l).length ≤ (left l).length := by
  induction l with
  | nil => exact Nat.le_refl _
  | cons q l ih =>
    obtain ⟨hq, hl⟩ := List.forall_mem_cons.mp h
    have htail := ih hl
    simp only [left, right, List.flatMap_cons, List.length_append] at htail ⊢
    omega

theorem left_eq_right_iff {l : List (List α × List α)} (h : Covers l) :
    left l = right l ↔ ∀ q ∈ l, q.1 = q.2 := by
  induction l with
  | nil => exact iff_of_true rfl (List.forall_mem_nil _)
  | cons q l ih =>
    obtain ⟨hq, hl⟩ := List.forall_mem_cons.mp h
    rw [List.forall_mem_cons, ← ih hl]
    show q.1 ++ left l = q.2 ++ right l ↔ _
    constructor
    · intro heq
      -- the rests are not shorter either, so both cuts are at one place
      have hlen := congrArg List.length heq
      rw [List.length_append, List.length_append] at hlen
      have hrest := length_right_le hl
      exact List.append_inj heq (by omega)
    · rintro ⟨hq, hrest⟩
      rw [hq, hrest]

end ProgrammingPath.Lib.Pieces
