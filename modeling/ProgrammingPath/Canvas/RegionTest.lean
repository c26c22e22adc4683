import ProgrammingPath.Lib.EvenOdd
import Mathlib.Algebra.Order.Ring.Rat

/-!
# Is a point in a region (`js/jCVS.js`)

`pointinrects` counts the edges that the ray to the right of the point meets, and finds the points on
the edges on the way. It takes both ends of an edge for a part of it. At a corner in which an edge
from below meets one from above it so counts two crossings where the line is crossed once; the edges
that should not count are those with their upper end on the ray.
-/

namespace ProgrammingPath.Canvas

open ProgrammingPath.Lib.EvenOdd

/-! ## The code -/

/-- `p1 = pt[i]` and `p2 = pt[(i + 1) % nCount]`. -/
def edges (pt : List (Point ℚ)) : List (Edge ℚ) :=
  (List.range pt.length).map fun i => ⟨pt.getD i ⟨0, 0⟩, pt.getD ((i + 1) % pt.length) ⟨0, 0⟩⟩

/-- The loop over the edges. -/
def loop (p : Point ℚ) : List (Edge ℚ) → Nat → Bool
  | [], nCross => nCross % 2 = 1
  | ⟨p1, p2⟩ :: rest, nCross =>
    if p1.y = p2.y then
      if p.y = p1.y ∧ min p1.x p2.x ≤ p.x ∧ p.x ≤ max p1.x p2.x then true else loop p rest nCross
    else if p.y < min p1.y p2.y ∨ max p1.y p2.y < p.y then loop p rest nCross
    else
      let x := (p.y - p1.y) * (p2.x - p1.x) / (p2.y - p1.y) + p1.x
      if p.x < x then loop p rest (nCross + 1) else if x = p.x then true else loop p rest nCross

/-- `pointinrects`. -/
def pointinrects (x y : ℚ) (pt : List (Point ℚ)) : Bool := loop ⟨x, y⟩ (edges pt) 0

/-! ## What is counted -/

/-- The edge is met by the ray to the right of the point, at one of its ends or between them. -/
def Met (e : Edge ℚ) (p : Point ℚ) : Prop :=
  e.a.y ≠ e.b.y ∧ (min e.a.y e.b.y ≤ p.y ∧ p.y ≤ max e.a.y e.b.y) ∧ p.x < e.xAt p.y

/-- The upper end of the edge, which is not horizontal, is on the ray to the right of the point. -/
def UpperEnd (e : Edge ℚ) (p : Point ℚ) : Prop :=
  e.a.y ≠ e.b.y ∧ max e.a.y e.b.y = p.y ∧ p.x < if e.a.y < e.b.y then e.b.x else e.a.x

instance (e : Edge ℚ) (p : Point ℚ) : Decidable (Met e p) := inferInstanceAs (Decidable (_ ∧ _ ∧ _))

instance (e : Edge ℚ) (p : Point ℚ) : Decidable (UpperEnd e p) :=
  inferInstanceAs (Decidable (_ ∧ _ ∧ _))

/-- The point is on the boundary. -/
def OnBoundary (pt : List (Point ℚ)) (p : Point ℚ) : Prop := ∃ e ∈ edges pt, e.On p

variable {e : Edge ℚ} {p : Point ℚ}

/-- The loop ends at an edge that the point is on. -/
theorem loop_of_on (hon : e.On p) (rest : List (Edge ℚ)) (nCross : Nat) :
    loop p (e :: rest) nCross = true := by
  rw [loop]
  by_cases hy : e.a.y = e.b.y
  · rw [if_pos hy, if_pos ((Edge.on_iff_of_horizontal hy).mp hon)]
  · obtain ⟨⟨hlo, hhi⟩, hx⟩ := (Edge.on_iff_of_not_horizontal hy).mp hon
    have hrange : ¬(p.y < min e.a.y e.b.y ∨ max e.a.y e.b.y < p.y) :=
      not_or.mpr ⟨not_lt.mpr hlo, not_lt.mpr hhi⟩
    have hright : ¬p.x < e.xAt p.y := not_lt.mpr hx.ge
    rw [if_neg hy, if_neg hrange]
    exact (if_neg hright).trans (if_pos hx.symm)

/-- It passes any other edge, and counts it when the ray meets it. -/
theorem loop_of_off (hoff : ¬e.On p) (rest : List (Edge ℚ)) (nCross : Nat) :
    loop p (e :: rest) nCross = loop p rest (nCross + if Met e p then 1 else 0) := by
  rw [loop]
  by_cases hy : e.a.y = e.b.y
  · have hmet : ¬Met e p := fun h => h.1 hy
    rw [if_pos hy, if_neg fun h => hoff ((Edge.on_iff_of_horizontal hy).mpr h), if_neg hmet, Nat.add_zero]
  · rw [if_neg hy]
    by_cases hrange : p.y < min e.a.y e.b.y ∨ max e.a.y e.b.y < p.y
    · have hmet : ¬Met e p := fun h => hrange.elim (not_lt.mpr h.2.1.1) (not_lt.mpr h.2.1.2)
      rw [if_pos hrange, if_neg hmet, Nat.add_zero]
    · obtain ⟨hlo, hhi⟩ := not_or.mp hrange
      have hbetween := And.intro (not_lt.mp hlo) (not_lt.mp hhi)
      rw [if_neg hrange]
      by_cases hx : p.x < e.xAt p.y
      · have hmet : Met e p := ⟨hy, hbetween, hx⟩
        rw [if_pos hmet]
        exact if_pos hx
      · have hne : ¬e.xAt p.y = p.x := fun heq =>
          hoff ((Edge.on_iff_of_not_horizontal hy).mpr ⟨hbetween, heq.symm⟩)
        rw [if_neg fun h : Met e p => hx h.2.2, Nat.add_zero]
        exact (if_neg hx).trans (if_neg hne)

/-- On an edge the loop ends with `true`. -/
theorem loop_of_exists_on {l : List (Edge ℚ)} (hon : ∃ e ∈ l, e.On p) (nCross : Nat) :
    loop p l nCross = true := by
  induction l generalizing nCross with
  | nil =>
    obtain ⟨e, he, -⟩ := hon
    exact absurd he List.not_mem_nil
  | cons e l ih =>
    by_cases hfirst : e.On p
    · exact loop_of_on hfirst l nCross
    · obtain ⟨e', he', hon'⟩ := hon
      have hrest : e' ∈ l := (List.mem_cons.mp he').resolve_left fun heq => hfirst (heq ▸ hon')
      rw [loop_of_off hfirst]
      exact ih ⟨e', hrest, hon'⟩ _

/-- Off the edges it counts those that the ray meets. -/
theorem loop_of_forall_off {l : List (Edge ℚ)} (hoff : ∀ e ∈ l, ¬e.On p) (nCross : Nat) :
    loop p l nCross = true ↔ Odd (nCross + l.countP (Met · p)) := by
  induction l generalizing nCross with
  | nil => rw [loop, List.countP_nil, Nat.add_zero, decide_eq_true_iff, Nat.odd_iff]
  | cons e l ih =>
    rw [loop_of_off (hoff e List.mem_cons_self), ih fun e' he => hoff e' (List.mem_cons_of_mem e he),
      List.countP_cons, Nat.add_assoc, Nat.add_comm (if Met e p then 1 else 0)]
    simp only [decide_eq_true_eq]

/-! ## Corners -/

theorem xAt_left (e : Edge ℚ) : e.xAt e.a.y = e.a.x := by
  unfold Edge.xAt
  rw [sub_self, zero_mul, zero_div, zero_add]

theorem xAt_right (hne : e.a.y ≠ e.b.y) : e.xAt e.b.y = e.b.x := by
  have hsub : e.b.y - e.a.y ≠ 0 := sub_ne_zero.mpr hne.symm
  unfold Edge.xAt
  rw [mul_div_assoc, mul_div_cancel₀ _ hsub, sub_add_cancel]

/-- The line is at the upper end there. -/
theorem xAt_max (hne : e.a.y ≠ e.b.y) :
    e.xAt (max e.a.y e.b.y) = if e.a.y < e.b.y then e.b.x else e.a.x := by
  split
  · next hlt => rw [max_eq_right hlt.le, xAt_right hne]
  · next hge => rw [max_eq_left (not_lt.mp hge), xAt_left e]

/-- An edge that is met is crossed, or its upper end is on the ray. -/
theorem met_iff : Met e p ↔ e.CrossedAbove p ∨ UpperEnd e p := by
  constructor
  · rintro ⟨hne, ⟨hlo, hhi⟩, hx⟩
    rcases hhi.lt_or_eq with hlt | heq
    · exact Or.inl ⟨hlo, hlt, hx⟩
    · rw [heq, xAt_max hne] at hx
      exact Or.inr ⟨hne, heq.symm, hx⟩
  · rintro (hc | ⟨hne, heq, hx⟩)
    · exact ⟨hc.ne, ⟨hc.1, hc.2.1.le⟩, hc.2.2⟩
    · rw [← xAt_max hne, heq] at hx
      exact ⟨hne, ⟨heq ▸ min_le_max, heq.ge⟩, hx⟩

theorem not_crossedAbove_of_upperEnd (h : UpperEnd e p) : ¬e.CrossedAbove p := fun hc =>
  absurd hc.2.1 (not_lt.mpr h.2.1.le)

/-- The edges that are counted too much are those with their upper end on the ray. -/
theorem countP_met (l : List (Edge ℚ)) :
    l.countP (Met · p) = l.countP (·.CrossedAbove p) + l.countP (UpperEnd · p) := by
  induction l with
  | nil => rfl
  | cons e l ih =>
    simp only [List.countP_cons, decide_eq_true_eq, ih]
    by_cases hup : UpperEnd e p
    · rw [if_pos (met_iff.mpr (Or.inr hup)), if_neg (not_crossedAbove_of_upperEnd hup), if_pos hup]
      omega
    · have hiff : Met e p ↔ e.CrossedAbove p := met_iff.trans (or_iff_left hup)
      simp only [hiff, if_neg hup]
      omega

/-! ## The result -/

/-- What `pointinrects` is to return. -/
def Right (x y : ℚ) (pt : List (Point ℚ)) : Prop :=
  (¬OnBoundary pt ⟨x, y⟩ → (pointinrects x y pt = true ↔ Inside (edges pt) ⟨x, y⟩)) ∧
    (OnBoundary pt ⟨x, y⟩ → pointinrects x y pt = true)

/-- It returns that on the boundary, and where an even number of edges have their upper end on the
ray, and nowhere else. -/
theorem pointinrects_right_iff (x y : ℚ) (pt : List (Point ℚ)) :
    Right x y pt ↔ OnBoundary pt ⟨x, y⟩ ∨ Even ((edges pt).countP (UpperEnd · ⟨x, y⟩)) := by
  by_cases hon : OnBoundary pt ⟨x, y⟩
  · exact ⟨fun _ => Or.inl hon, fun _ => ⟨fun hoff => absurd hon hoff, fun _ => loop_of_exists_on hon 0⟩⟩
  · have hoff : ∀ e ∈ edges pt, ¬e.On ⟨x, y⟩ := fun e he he' => hon ⟨e, he, he'⟩
    have hresult : pointinrects x y pt = true ↔
        Odd ((edges pt).countP (·.CrossedAbove ⟨x, y⟩) + (edges pt).countP (UpperEnd · ⟨x, y⟩)) := by
      rw [pointinrects, loop_of_forall_off hoff, Nat.zero_add, countP_met]
    have hparity : Right x y pt ↔ (pointinrects x y pt = true ↔ Inside (edges pt) ⟨x, y⟩) :=
      ⟨fun h => h.1 hon, fun h => ⟨fun _ => h, fun h' => absurd h' hon⟩⟩
    rw [hparity, hresult, inside_iff hoff, or_iff_right hon, Nat.odd_add]
    by_cases hodd : Odd ((edges pt).countP (·.CrossedAbove ⟨x, y⟩))
    · simp only [hodd, true_iff, iff_true]
    · simp only [hodd, false_iff, iff_false, not_not]

/-- The square standing on a corner, around the origin. -/
def diamond : List (Point ℚ) := [⟨2, 0⟩, ⟨0, 2⟩, ⟨-2, 0⟩, ⟨0, -2⟩]

/-- The ray from its middle meets the corner to the right. -/
theorem not_right_diamond : ¬Right 0 0 diamond := by
  have hedges : ∀ e ∈ edges diamond, e.a.y ≠ e.b.y ∧
      ¬((min e.a.y e.b.y ≤ 0 ∧ 0 ≤ max e.a.y e.b.y) ∧ 0 = e.xAt 0) := by decide +kernel
  have hoff : ∀ e ∈ edges diamond, ¬e.On ⟨0, 0⟩ := fun e he hon =>
    (hedges e he).2 ((Edge.on_iff_of_not_horizontal (hedges e he).1).mp hon)
  have hinside : Inside (edges diamond) ⟨0, 0⟩ := by
    rw [inside_iff hoff, Nat.odd_iff]
    decide +kernel
  have hout : pointinrects 0 0 diamond = false := by decide +kernel
  rintro ⟨hright, -⟩
  have htrue := (hright fun ⟨e, he, hon⟩ => hoff e he hon).mpr hinside
  rw [hout] at htrue
  exact Bool.false_ne_true htrue

end ProgrammingPath.Canvas
