import Mathlib.Algebra.Order.Field.Basic
import Mathlib.Algebra.Ring.Parity
import Mathlib.Tactic.FieldSimp
import Mathlib.Tactic.Linarith
import Mathlib.Tactic.Ring

/-!
# The even-odd rule

A point off the edges of a closed line is inside when a ray from it crosses the edges an odd number
of times. The ray to the right may meet an end of an edge, or run along one; the rule is about a ray
that does not, so it is stated for the rays from a little above the point: they meet no end, and the
edges are off the point. `inside_iff` counts their crossings at the point itself: an edge counts with
its lower end and without its upper one.
-/

namespace ProgrammingPath.Lib.EvenOdd

structure Point (K : Type) where
  x : K
  y : K
  deriving DecidableEq

structure Edge (K : Type) where
  a : Point K
  b : Point K
  deriving DecidableEq

variable {K : Type} [Field K] [LinearOrder K]

namespace Edge

/-- Where the line through an edge that is not horizontal has the height `y`. -/
def xAt (e : Edge K) (y : K) : K := (y - e.a.y) * (e.b.x - e.a.x) / (e.b.y - e.a.y) + e.a.x

/-- The point is on the edge, its ends included. -/
def On (e : Edge K) (p : Point K) : Prop :=
  ∃ t, 0 ≤ t ∧ t ≤ 1 ∧ p.x = e.a.x + t * (e.b.x - e.a.x) ∧ p.y = e.a.y + t * (e.b.y - e.a.y)

/-- The edge runs from below the height of the point to above it, and there it is to the right. -/
def Crossed (e : Edge K) (p : Point K) : Prop :=
  min e.a.y e.b.y < p.y ∧ p.y < max e.a.y e.b.y ∧ p.x < e.xAt p.y

/-- The same, but that the lower end may be at the height of the point. -/
def CrossedAbove (e : Edge K) (p : Point K) : Prop :=
  min e.a.y e.b.y ≤ p.y ∧ p.y < max e.a.y e.b.y ∧ p.x < e.xAt p.y

instance (e : Edge K) (p : Point K) : Decidable (e.Crossed p) := inferInstanceAs (Decidable (_ ∧ _ ∧ _))

instance (e : Edge K) (p : Point K) : Decidable (e.CrossedAbove p) :=
  inferInstanceAs (Decidable (_ ∧ _ ∧ _))

end Edge

/-- How many edges the ray to the right crosses. -/
def crossings (edges : List (Edge K)) (p : Point K) : Nat := edges.countP (·.Crossed p)

/-- Inside by the even-odd rule: the rays from a little above the point cross an odd number of edges. -/
def Inside (edges : List (Edge K)) (p : Point K) : Prop :=
  ∃ δ, 0 < δ ∧ ∀ ε, 0 < ε → ε < δ → Odd (crossings edges ⟨p.x, p.y + ε⟩)

variable {e : Edge K} {p : Point K}

/-! ## Edges -/

/-- An edge that is crossed at the height of its lower end, or between its ends, is not horizontal. -/
theorem Edge.CrossedAbove.ne (h : e.CrossedAbove p) : e.a.y ≠ e.b.y := by
  intro heq
  have hlt := lt_of_le_of_lt h.1 h.2.1
  rw [heq, min_self, max_self] at hlt
  exact lt_irrefl _ hlt

omit [LinearOrder K] in
/-- The line moves on at a fixed rate. -/
theorem Edge.xAt_add (e : Edge K) (y ε : K) :
    e.xAt (y + ε) = e.xAt y + ε * ((e.b.x - e.a.x) / (e.b.y - e.a.y)) := by
  unfold Edge.xAt
  ring

variable [IsStrictOrderedRing K]

/-- What lies between two numbers is a mean of them. -/
theorem exists_mean_iff {a b v : K} :
    (∃ t, 0 ≤ t ∧ t ≤ 1 ∧ v = a + t * (b - a)) ↔ min a b ≤ v ∧ v ≤ max a b := by
  constructor
  · rintro ⟨t, h0, h1, rfl⟩
    rcases le_total a b with hab | hab
    · rw [min_eq_left hab, max_eq_right hab]
      have hdiff : 0 ≤ b - a := sub_nonneg.mpr hab
      have hstep : t * (b - a) ≤ b - a := mul_le_of_le_one_left hdiff h1
      exact ⟨le_add_of_nonneg_right (mul_nonneg h0 hdiff), (add_le_add_right hstep a).trans_eq (add_sub_cancel a b)⟩
    · rw [min_eq_right hab, max_eq_left hab]
      have hdiff : b - a ≤ 0 := sub_nonpos.mpr hab
      have hstep : b - a ≤ t * (b - a) := le_mul_of_le_one_left hdiff h1
      exact ⟨(add_sub_cancel a b).symm.trans_le (add_le_add_right hstep a),
        add_le_of_nonpos_right (mul_nonpos_of_nonneg_of_nonpos h0 hdiff)⟩
  · rintro ⟨hlo, hhi⟩
    rcases lt_trichotomy a b with hab | rfl | hab
    · rw [min_eq_left hab.le] at hlo
      rw [max_eq_right hab.le] at hhi
      have hpos : 0 < b - a := sub_pos.mpr hab
      refine ⟨(v - a) / (b - a), div_nonneg (sub_nonneg.mpr hlo) hpos.le, ?_, ?_⟩
      · rw [div_le_one hpos]
        linarith
      · rw [div_mul_cancel₀ _ hpos.ne']
        ring
    · rw [min_self] at hlo
      rw [max_self] at hhi
      exact ⟨0, le_refl 0, zero_le_one, by rw [zero_mul, add_zero]; exact le_antisymm hhi hlo⟩
    · rw [min_eq_right hab.le] at hlo
      rw [max_eq_left hab.le] at hhi
      have hpos : 0 < a - b := sub_pos.mpr hab
      refine ⟨(a - v) / (a - b), div_nonneg (sub_nonneg.mpr hhi) hpos.le, ?_, ?_⟩
      · rw [div_le_one hpos]
        linarith
      · have hneg : b - a = -(a - b) := by ring
        rw [hneg, mul_neg, div_mul_cancel₀ _ hpos.ne']
        ring

/-- A horizontal edge has the points at its height between its ends. -/
theorem Edge.on_iff_of_horizontal (h : e.a.y = e.b.y) :
    e.On p ↔ p.y = e.a.y ∧ min e.a.x e.b.x ≤ p.x ∧ p.x ≤ max e.a.x e.b.x := by
  rw [← exists_mean_iff]
  have hheight (t : K) : e.a.y + t * (e.b.y - e.a.y) = e.a.y := by rw [h, sub_self, mul_zero, add_zero]
  constructor
  · rintro ⟨t, h0, h1, hx, hy⟩
    exact ⟨hy.trans (hheight t), t, h0, h1, hx⟩
  · rintro ⟨hy, t, h0, h1, hx⟩
    exact ⟨t, h0, h1, hx, hy.trans (hheight t).symm⟩

/-- Any other edge has one point at each height between its ends. -/
theorem Edge.on_iff_of_not_horizontal (h : e.a.y ≠ e.b.y) :
    e.On p ↔ (min e.a.y e.b.y ≤ p.y ∧ p.y ≤ max e.a.y e.b.y) ∧ p.x = e.xAt p.y := by
  rw [← exists_mean_iff]
  have hne : e.b.y - e.a.y ≠ 0 := sub_ne_zero.mpr (Ne.symm h)
  have hxAt (t : K) : e.xAt (e.a.y + t * (e.b.y - e.a.y)) = e.a.x + t * (e.b.x - e.a.x) := by
    unfold Edge.xAt
    field_simp
    ring
  constructor
  · rintro ⟨t, h0, h1, hx, hy⟩
    exact ⟨⟨t, h0, h1, hy⟩, by rw [hx, hy, hxAt]⟩
  · rintro ⟨⟨t, h0, h1, hy⟩, hx⟩
    exact ⟨t, h0, h1, by rw [hx, hy, hxAt], hy⟩

/-- Two different numbers stay apart when one of them moves a little. -/
theorem exists_lt_add_mul_iff {u v : K} (hne : u ≠ v) (m : K) :
    ∃ δ, 0 < δ ∧ ∀ ε, 0 < ε → ε < δ → (u < v + ε * m ↔ u < v) := by
  have hm : 0 < |m| + 1 := by positivity
  refine ⟨|v - u| / (|m| + 1), div_pos (abs_pos.mpr (sub_ne_zero.mpr (Ne.symm hne))) hm, fun ε h0 hε => ?_⟩
  rw [lt_div_iff₀ hm] at hε
  have hle : |ε * m| < |v - u| := by
    rw [abs_mul, abs_of_pos h0]
    linarith
  obtain ⟨hlo, hhi⟩ := abs_lt.mp hle
  rcases lt_or_gt_of_ne hne with hlt | hgt
  · rw [abs_of_pos (sub_pos.mpr hlt)] at hlo
    exact ⟨fun _ => hlt, fun _ => by linarith⟩
  · rw [abs_of_neg (sub_neg.mpr hgt)] at hhi
    exact ⟨fun h => by linarith, fun h => absurd h (not_lt.mpr hgt.le)⟩

/-- A little above a point off the edge. -/
theorem Edge.exists_crossed_iff (hoff : ¬e.On p) :
    ∃ δ, 0 < δ ∧ ∀ ε, 0 < ε → ε < δ → (e.Crossed ⟨p.x, p.y + ε⟩ ↔ e.CrossedAbove p) := by
  rcases lt_or_ge p.y (min e.a.y e.b.y) with hbelow | hlo
  · -- below the edge, and still below it
    refine ⟨min e.a.y e.b.y - p.y, sub_pos.mpr hbelow, fun ε h0 hε => ?_⟩
    have hstill : p.y + ε < min e.a.y e.b.y := by linarith
    exact ⟨fun h => absurd h.1 (not_lt.mpr hstill.le), fun h => absurd h.1 (not_le.mpr hbelow)⟩
  · rcases le_or_gt (max e.a.y e.b.y) p.y with habove | hhi
    · -- at its upper end, or above it
      refine ⟨1, one_pos, fun ε h0 _ => ?_⟩
      have hover : max e.a.y e.b.y < p.y + ε := by linarith
      exact ⟨fun h => absurd h.2.1 (not_lt.mpr hover.le), fun h => absurd h.2.1 (not_lt.mpr habove)⟩
    · have hne : e.a.y ≠ e.b.y := by
        intro heq
        rw [heq, min_self] at hlo
        rw [heq, max_self] at hhi
        exact absurd hhi (not_lt.mpr hlo)
      have hx : p.x ≠ e.xAt p.y := fun hx =>
        hoff ((Edge.on_iff_of_not_horizontal hne).mpr ⟨⟨hlo, hhi.le⟩, hx⟩)
      obtain ⟨δ, hδ, hside⟩ := exists_lt_add_mul_iff hx ((e.b.x - e.a.x) / (e.b.y - e.a.y))
      refine ⟨min δ (max e.a.y e.b.y - p.y), lt_min hδ (sub_pos.mpr hhi), fun ε h0 hε => ?_⟩
      have hright := hside ε h0 (lt_of_lt_of_le hε (min_le_left _ _))
      rw [← Edge.xAt_add] at hright
      have hmin : min e.a.y e.b.y < p.y + ε := by linarith
      have hmax : p.y + ε < max e.a.y e.b.y := by
        have hle := lt_of_lt_of_le hε (min_le_right _ _)
        linarith
      exact ⟨fun h => ⟨hlo, hhi, hright.mp h.2.2⟩, fun h => ⟨hmin, hmax, hright.mpr h.2.2⟩⟩

/-- The same for all edges at once. -/
theorem exists_forall_crossed_iff {edges : List (Edge K)} (hoff : ∀ e ∈ edges, ¬e.On p) :
    ∃ δ, 0 < δ ∧ ∀ ε, 0 < ε → ε < δ → ∀ e ∈ edges, e.Crossed ⟨p.x, p.y + ε⟩ ↔ e.CrossedAbove p := by
  induction edges with
  | nil => exact ⟨1, one_pos, fun _ _ _ e he => absurd he List.not_mem_nil⟩
  | cons e edges ih =>
    obtain ⟨δ, hδ, hrest⟩ := ih fun e' he => hoff e' (List.mem_cons_of_mem e he)
    obtain ⟨δ', hδ', hfirst⟩ := Edge.exists_crossed_iff (hoff e List.mem_cons_self)
    refine ⟨min δ δ', lt_min hδ hδ', fun ε h0 hε e' he => ?_⟩
    rcases List.mem_cons.mp he with rfl | he
    · exact hfirst ε h0 (lt_of_lt_of_le hε (min_le_right _ _))
    · exact hrest ε h0 (lt_of_lt_of_le hε (min_le_left _ _)) e' he

/-- The rule at the point itself. -/
theorem inside_iff {edges : List (Edge K)} (hoff : ∀ e ∈ edges, ¬e.On p) :
    Inside edges p ↔ Odd (edges.countP (·.CrossedAbove p)) := by
  obtain ⟨δ, hδ, hcrossed⟩ := exists_forall_crossed_iff hoff
  have hcount (ε : K) (h0 : 0 < ε) (hε : ε < δ) :
      crossings edges ⟨p.x, p.y + ε⟩ = edges.countP (·.CrossedAbove p) := by
    unfold crossings
    refine List.countP_congr fun e he => ?_
    rw [decide_eq_true_iff, decide_eq_true_iff, hcrossed ε h0 hε e he]
  constructor
  · rintro ⟨δ', hδ', hodd⟩
    -- a height that is low enough for both
    have hmin : 0 < min δ δ' := lt_min hδ hδ'
    have hhalf : min δ δ' / 2 < min δ δ' := half_lt_self hmin
    have hbelow := hodd _ (half_pos hmin) (lt_of_lt_of_le hhalf (min_le_right _ _))
    rwa [hcount _ (half_pos hmin) (lt_of_lt_of_le hhalf (min_le_left _ _))] at hbelow
  · intro hodd
    refine ⟨δ, hδ, fun ε h0 hε => ?_⟩
    rwa [hcount ε h0 hε]

end ProgrammingPath.Lib.EvenOdd
