import Mathlib.Data.List.Infix

/-!
# Replacing every occurrence of a text

`Replaced old new k l l'` says that `l'` is `l` with `new` for `old`: the text is read from left to right, and `k`
times it begins with `old`. What comes out is determined (`Replaced.unique`), and as long as what went in exactly if
nothing was replaced or the two texts have the same length (`Replaced.length_eq_iff`).
-/

namespace ProgrammingPath.Lib

variable {α : Type} {old new : List α}

inductive Replaced (old new : List α) : Nat → List α → List α → Prop
  | nil : Replaced old new 0 [] []
  | found {k : Nat} {l l' : List α} : Replaced old new k l l' → Replaced old new (k + 1) (old ++ l) (new ++ l')
  | other {k : Nat} {b : α} {l l' : List α} :
    ¬old <+: b :: l → Replaced old new k l l' → Replaced old new k (b :: l) (b :: l')

namespace Replaced

variable {k k' : Nat} {l l' l'' : List α}

/-- What went out is what came in, but for the texts. -/
theorem length_add (h : Replaced old new k l l') :
    l'.length + k * old.length = l.length + k * new.length := by
  induction h with
  | nil => rw [Nat.zero_mul, Nat.zero_mul]
  | found _ ih =>
    rw [List.length_append, List.length_append, Nat.succ_mul, Nat.succ_mul]
    omega
  | other _ _ ih =>
    rw [List.length_cons, List.length_cons]
    omega

/-- No more texts were replaced than there are elements. -/
theorem le_length (hold : old ≠ []) (h : Replaced old new k l l') : k ≤ l.length := by
  have hpos := List.length_pos_iff.mpr hold
  induction h with
  | nil => exact Nat.le_refl 0
  | found _ ih =>
    rw [List.length_append]
    omega
  | other _ _ ih => exact Nat.le_succ_of_le ih

/-- A bound on what comes out. -/
theorem length_le (hold : old ≠ []) (h : Replaced old new k l l') {m : Nat} (hnew : new.length ≤ m) :
    l'.length ≤ l.length * (m + 1) := by
  have hadd := h.length_add
  have hk : k * new.length ≤ l.length * m := Nat.mul_le_mul (h.le_length hold) hnew
  rw [Nat.mul_succ]
  omega

theorem unique (hold : old ≠ []) (h : Replaced old new k l l') (h' : Replaced old new k' l l'') :
    k = k' ∧ l' = l'' := by
  have hpos := List.length_pos_iff.mpr hold
  induction h generalizing k' l'' with
  | nil =>
    generalize hl : ([] : List α) = m at h'
    cases h' with
    | nil => exact ⟨rfl, rfl⟩
    | found _ => exact absurd (List.append_eq_nil_iff.mp hl.symm).1 hold
    | other _ _ => cases hl
  | @found k l l' _ ih =>
    generalize hl : old ++ l = m at h'
    cases h' with
    | nil => exact absurd (List.append_eq_nil_iff.mp hl).1 hold
    | found hrest =>
      rw [List.append_cancel_left_eq] at hl
      subst hl
      obtain ⟨rfl, rfl⟩ := ih hrest
      exact ⟨rfl, rfl⟩
    | other hnot _ => exact absurd (hl ▸ List.prefix_append old l) hnot
  | @other k b l l' hnot _ ih =>
    generalize hl : b :: l = m at h'
    cases h' with
    | nil => cases hl
    | found _ => exact absurd (hl ▸ List.prefix_append old _) hnot
    | other _ hrest =>
      cases hl
      obtain ⟨rfl, rfl⟩ := ih hrest
      exact ⟨rfl, rfl⟩

/-- Something is replaced if and only if the text occurs. -/
theorem eq_zero_iff (hold : old ≠ []) (h : Replaced old new k l l') : k = 0 ↔ ¬old <:+: l := by
  induction h with
  | nil => simp [hold]
  | found _ _ => exact iff_of_false (Nat.succ_ne_zero _) fun hnot => hnot (List.prefix_append old _).isInfix
  | other hnot _ ih => rw [ih, List.infix_cons_iff, not_or, and_iff_right hnot]

theorem eq_of_zero (h : Replaced old new 0 l l') : l' = l := by
  generalize hk : 0 = k at h
  induction h with
  | nil => rfl
  | found _ _ => cases hk
  | other _ _ ih => rw [ih hk]

/-- **The length stays the same exactly if nothing is replaced or the texts are equally long.** -/
theorem length_eq_iff (hold : old ≠ []) (h : Replaced old new k l l') :
    l'.length = l.length ↔ ¬old <:+: l ∨ old.length = new.length := by
  have hadd := h.length_add
  rw [← h.eq_zero_iff hold]
  constructor
  · intro hlen
    rw [hlen, Nat.add_left_cancel_iff] at hadd
    rcases Nat.eq_zero_or_pos k with hk | hk
    · exact .inl hk
    · exact .inr (Nat.eq_of_mul_eq_mul_left hk hadd)
  · rintro (rfl | hlen)
    · rw [h.eq_of_zero]
    · rw [hlen] at hadd
      omega

/-- Every element comes from the text or from what was put in. -/
theorem mem (h : Replaced old new k l l') {b : α} (hb : b ∈ l') : b ∈ l ∨ b ∈ new := by
  induction h with
  | nil => exact .inl hb
  | found _ ih =>
    rcases List.mem_append.mp hb with hb | hb
    · exact .inr hb
    · exact (ih hb).imp_left (List.mem_append_right _)
  | other _ _ ih =>
    rcases List.mem_cons.mp hb with rfl | hb
    · exact .inl List.mem_cons_self
    · exact (ih hb).imp_left (List.mem_cons_of_mem _)

theorem of_absent (hnot : ¬old <:+: l) : Replaced old new 0 l l := by
  induction l with
  | nil => exact .nil
  | cons b l ih =>
    rw [List.infix_cons_iff, not_or] at hnot
    exact .other hnot.1 (ih hnot.2)

/-! ## Texts in quotes -/

section Quotes

variable {q : α} {o p w : List α}

/-- A text without the quote does not reach over it. -/
theorem prefix_append_cons_iff (hw : q ∉ w) {a b : List α} : w <+: a ++ q :: b ↔ w <+: a := by
  constructor
  · intro h
    by_cases hle : w.length ≤ a.length
    · exact List.prefix_of_prefix_length_le h (List.prefix_append _ _) hle
    · exfalso
      obtain ⟨more, hmore⟩ := h
      have hget : (w ++ more)[a.length]? = some q := by
        rw [hmore, List.getElem?_append_right (Nat.le_refl _), Nat.sub_self]
        rfl
      rw [List.getElem?_append_left (Nat.lt_of_not_le hle)] at hget
      exact hw (List.mem_of_getElem? hget)
  · intro h
    exact h.trans (List.prefix_append _ _)

theorem infix_append_cons_iff (hne : w ≠ []) (hw : q ∉ w) {a b : List α} :
    w <:+: a ++ q :: b ↔ w <:+: a ∨ w <:+: b := by
  induction a with
  | nil =>
    have hfirst : ¬w <+: q :: b := by
      rw [← List.nil_append (q :: b), prefix_append_cons_iff hw, List.prefix_nil]
      exact hne
    rw [List.nil_append, List.infix_cons_iff, or_iff_right hfirst, List.infix_nil, or_iff_right hne]
  | cons c a ih =>
    rw [List.cons_append, List.infix_cons_iff, ih, List.infix_cons_iff, ← List.cons_append,
      prefix_append_cons_iff hw, or_assoc]

/-- A text without the quote that is not put in, and does not begin with one, begins what came out if it began what
went in. -/
theorem prefix_iff (h : Replaced (q :: o ++ [q]) (q :: p ++ [q]) k l l') (hw : q ∉ w) : w <+: l ↔ w <+: l' := by
  induction h generalizing w with
  | nil => exact Iff.rfl
  | found _ _ =>
    have hfirst : ∀ a b : List α, w <+: (q :: a ++ [q]) ++ b ↔ w = [] := by
      intro a b
      rw [List.cons_append, List.cons_append, ← List.nil_append (q :: _), prefix_append_cons_iff hw,
        List.prefix_nil]
    rw [hfirst, hfirst]
  | other _ _ ih =>
    cases w with
    | nil => exact iff_of_true List.nil_prefix List.nil_prefix
    | cons c w =>
      rw [List.mem_cons, not_or] at hw
      rw [List.cons_prefix_cons, List.cons_prefix_cons, ih hw.2]

/-- **Where both texts are in quotes**, a text without quotes that is in neither of them occurs afterwards exactly if it
did before. -/
theorem infix_iff (h : Replaced (q :: o ++ [q]) (q :: p ++ [q]) k l l') (hne : w ≠ []) (hw : q ∉ w)
    (ho : ¬w <:+: o) (hp : ¬w <:+: p) : w <:+: l ↔ w <:+: l' := by
  have hquoted : ∀ {a b : List α}, ¬w <:+: a → (w <:+: (q :: a ++ [q]) ++ b ↔ w <:+: b) := by
    intro a b ha
    have hsplit : (q :: a ++ [q]) ++ b = [] ++ q :: (a ++ q :: b) := by simp
    rw [hsplit, infix_append_cons_iff hne hw, infix_append_cons_iff hne hw, List.infix_nil, or_iff_right hne,
      or_iff_right ha]
  induction h with
  | nil => exact Iff.rfl
  | found _ ih => exact (hquoted ho).trans (ih.trans (hquoted hp).symm)
  | other hnot hrest ih =>
    rw [List.infix_cons_iff, List.infix_cons_iff]
    exact or_congr ((Replaced.other hnot hrest).prefix_iff hw) ih

end Quotes

end Replaced

end ProgrammingPath.Lib
