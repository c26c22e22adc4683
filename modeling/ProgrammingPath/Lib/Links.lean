import Mathlib.Data.List.Nodup
import Mathlib.Logic.Function.Basic

/-!
# Doubly linked lists

Cells with a pointer to the next and one to the previous cell, and a ring of them through a header.
`Chain l a xs b` says that the cells of `xs` lie between `a` and `b`, in both directions; `Ring` is a
chain from the header to itself without a cell twice. A cell is put between two neighbours, or taken out,
by four or two assignments, and the lemmas say what the ring becomes. `follow` is the traversal.
-/

namespace ProgrammingPath.Lib

/-- The two pointers of every cell; `none` is the null pointer. -/
structure Links (A : Type) where
  next : A → Option A
  prev : A → Option A

namespace Links

variable {A : Type}

/-- From `a` the cells of `xs` follow, and then `b`, and so on the way back. -/
def Chain (l : Links A) : A → List A → A → Prop
  | a, [], b => l.next a = some b ∧ l.prev b = some a
  | a, x :: xs, b => l.next a = some x ∧ l.prev x = some a ∧ Chain l x xs b

variable {l l' : Links A} {a b z : A} {xs ys : List A}

theorem chain_append : Chain l a (xs ++ z :: ys) b ↔ Chain l a xs z ∧ Chain l z ys b := by
  induction xs generalizing a with
  | nil => exact ⟨fun h => ⟨⟨h.1, h.2.1⟩, h.2.2⟩, fun h => ⟨h.1.1, h.1.2, h.2⟩⟩
  | cons x xs ih =>
    rw [List.cons_append, Chain, Chain, ih]
    exact ⟨fun h => ⟨⟨h.1, h.2.1, h.2.2.1⟩, h.2.2.2⟩, fun h => ⟨h.1.1, h.1.2.1, h.1.2.2, h.2⟩⟩

/-- The first cell, and the last one. -/
theorem Chain.next_eq (h : Chain l a xs b) : l.next a = some (xs.headD b) := by
  cases xs with
  | nil => exact h.1
  | cons x xs => exact h.1

theorem Chain.prev_eq (h : Chain l a xs b) : l.prev b = some (xs.getLastD a) := by
  induction xs generalizing a with
  | nil => exact h.2
  | cons x xs ih =>
    rw [ih h.2.2]
    cases xs <;> rfl

/-- A chain does not notice what happens outside it. -/
theorem Chain.frame (h : Chain l a xs b) (hnext : ∀ c ∈ a :: xs, l'.next c = l.next c)
    (hprev : ∀ c ∈ xs ++ [b], l'.prev c = l.prev c) : Chain l' a xs b := by
  induction xs generalizing a with
  | nil => exact ⟨(hnext a (by simp)).trans h.1, (hprev b (by simp)).trans h.2⟩
  | cons x xs ih =>
    obtain ⟨h1, h2, h3⟩ := h
    refine ⟨(hnext a (by simp)).trans h1, (hprev x (by simp)).trans h2, ?_⟩
    exact ih h3 (fun c hc => hnext c (List.mem_cons_of_mem a hc))
      fun c hc => hprev c (List.mem_cons_of_mem x hc)

theorem getLastD_mem (x : A) (xs : List A) : xs.getLastD x ∈ x :: xs := by
  rw [← List.getLast_eq_getLastD (List.cons_ne_nil x xs)]
  exact List.getLast_mem _

theorem headD_mem (b : A) (ys : List A) : ys.headD b ∈ ys ++ [b] := by
  cases ys with
  | nil => exact List.mem_singleton.mpr rfl
  | cons y ys => exact List.mem_cons_self

/-! ## Putting cells in and taking them out -/

variable [DecidableEq A]

/-- `z` is put between `p` and `q`. -/
def insert (l : Links A) (z p q : A) : Links A where
  next := Function.update (Function.update l.next z (some q)) p (some z)
  prev := Function.update (Function.update l.prev z (some p)) q (some z)

/-- `p` and `q` become neighbours. -/
def join (l : Links A) (p q : A) : Links A where
  next := Function.update l.next p (some q)
  prev := Function.update l.prev q (some p)

/-- The pointers of a cell are overwritten. -/
def reset (l : Links A) (z : A) (next prev : Option A) : Links A where
  next := Function.update l.next z next
  prev := Function.update l.prev z prev

/-- A cell between two neighbours. -/
theorem Chain.insert (h : Chain l a (xs ++ ys) b) (hfrom : (a :: (xs ++ ys)).Nodup)
    (hto : (xs ++ ys ++ [b]).Nodup) (hza : z ∉ a :: (xs ++ ys)) (hzb : z ≠ b) :
    Chain (l.insert z (xs.getLastD a) (ys.headD b)) a (xs ++ z :: ys) b := by
  -- on the cells before the new one; without them `a` is its neighbour
  induction xs generalizing a with
  | nil =>
    rw [List.nil_append] at h hfrom hto hza ⊢
    have hane : a ≠ z := fun heq => hza (heq ▸ List.mem_cons_self)
    refine ⟨Function.update_self .., ?_, ?_⟩
    · show Function.update (Function.update l.prev z (some a)) (ys.headD b) (some z) z = some a
      rw [Function.update_of_ne, Function.update_self]
      cases ys with
      | nil => exact hzb
      | cons y ys => exact fun heq => hza (heq ▸ by simp)
    · have hz : (l.insert z a (ys.headD b)).next z = some (ys.headD b) := by
        show Function.update (Function.update l.next z (some (ys.headD b))) a (some z) z = _
        rw [Function.update_of_ne (Ne.symm hane), Function.update_self]
      -- behind the new cell nothing changes but the pointer back to it
      cases ys with
      | nil => exact ⟨hz, Function.update_self ..⟩
      | cons y ys =>
        refine ⟨hz, Function.update_self .., h.2.2.frame ?_ ?_⟩
        · intro c hc
          have hca : c ≠ a := fun heq => (List.nodup_cons.mp hfrom).1 (heq ▸ hc)
          have hcz : c ≠ z := fun heq => hza (heq ▸ List.mem_cons_of_mem a hc)
          show Function.update (Function.update l.next z _) a _ c = _
          rw [Function.update_of_ne hca, Function.update_of_ne hcz]
        · intro c hc
          have hcy : c ≠ y := fun heq => (List.nodup_cons.mp hto).1 (heq ▸ hc)
          have hcz : c ≠ z := by
            rintro rfl
            rcases List.mem_append.mp hc with hc | hc
            · exact hza (by simp [hc])
            · exact hzb (List.mem_singleton.mp hc)
          show Function.update (Function.update l.prev z _) y _ c = _
          rw [Function.update_of_ne hcy, Function.update_of_ne hcz]
  | cons x xs ih =>
    obtain ⟨h1, h2, h3⟩ := h
    have hlast : (x :: xs).getLastD a = xs.getLastD x := by cases xs <;> rfl
    rw [hlast]
    rw [List.cons_append] at hfrom hza
    -- the first cell is none of those whose pointers change
    have haLast : a ≠ xs.getLastD x := fun heq =>
      (List.nodup_cons.mp hfrom).1 (heq ▸ List.mem_append_left ys (getLastD_mem x xs))
    have haz : a ≠ z := fun heq => hza (heq ▸ List.mem_cons_self)
    have hxz : x ≠ z := fun heq => hza (heq ▸ by simp)
    have hxq : x ≠ ys.headD b := by
      rintro rfl
      rw [List.append_assoc] at hto
      exact (List.nodup_cons.mp hto).1 (List.mem_append_right xs (headD_mem b ys))
    refine ⟨?_, ?_, ?_⟩
    · show Function.update (Function.update l.next z _) (xs.getLastD x) _ a = _
      rw [Function.update_of_ne haLast, Function.update_of_ne haz, h1]
    · show Function.update (Function.update l.prev z _) (ys.headD b) _ x = _
      rw [Function.update_of_ne hxq, Function.update_of_ne hxz, h2]
    · exact ih h3 (List.nodup_cons.mp hfrom).2 (List.nodup_cons.mp hto).2
        fun hmem => hza (List.mem_cons_of_mem a hmem)

/-- A cell taken out from between its neighbours. -/
theorem Chain.join (h : Chain l a (xs ++ z :: ys) b) (hfrom : (a :: (xs ++ z :: ys)).Nodup)
    (hto : (xs ++ z :: ys ++ [b]).Nodup) :
    Chain (l.join (xs.getLastD a) (ys.headD b)) a (xs ++ ys) b := by
  induction xs generalizing a with
  | nil =>
    -- the cell that goes is the first one
    obtain ⟨-, -, h⟩ := h
    rw [List.nil_append] at hfrom hto ⊢
    cases ys with
    | nil => exact ⟨Function.update_self .., Function.update_self ..⟩
    | cons y ys =>
      refine ⟨Function.update_self .., Function.update_self .., h.2.2.frame ?_ ?_⟩
      · intro c hc
        have hca : c ≠ a := fun heq =>
          (List.nodup_cons.mp hfrom).1 (heq ▸ List.mem_cons_of_mem z hc)
        exact Function.update_of_ne hca ..
      · intro c hc
        have hcy : c ≠ y := fun heq =>
          (List.nodup_cons.mp (List.nodup_cons.mp hto).2).1 (heq ▸ hc)
        exact Function.update_of_ne hcy ..
  | cons x xs ih =>
    obtain ⟨h1, h2, h3⟩ := h
    have hlast : (x :: xs).getLastD a = xs.getLastD x := by cases xs <;> rfl
    rw [hlast]
    rw [List.cons_append] at hfrom
    have haLast : a ≠ xs.getLastD x := fun heq =>
      (List.nodup_cons.mp hfrom).1 (heq ▸ List.mem_append_left (z :: ys) (getLastD_mem x xs))
    have hxq : x ≠ ys.headD b := by
      rintro rfl
      rw [List.append_assoc] at hto
      exact (List.nodup_cons.mp hto).1
        (List.mem_append_right xs (List.mem_cons_of_mem z (headD_mem b ys)))
    refine ⟨?_, ?_, ih h3 (List.nodup_cons.mp hfrom).2 (List.nodup_cons.mp hto).2⟩
    · exact (Function.update_of_ne haLast ..).trans h1
    · exact (Function.update_of_ne hxq ..).trans h2

/-! ## Rings -/

/-- The cells of `xs` hang on the header `hd`. -/
structure Ring (l : Links A) (hd : A) (xs : List A) : Prop where
  chain : Chain l hd xs hd
  nodup : (hd :: xs).Nodup

variable {hd p q : A}

omit [DecidableEq A] in
theorem Ring.nodup_concat (h : Ring l hd xs) : (xs ++ [hd]).Nodup :=
  (List.perm_append_singleton hd xs).nodup_iff.mpr h.nodup

omit [DecidableEq A] in
/-- A ring does not notice what happens outside it. -/
theorem Ring.frame (h : Ring l hd xs) (hnext : ∀ c ∈ hd :: xs, l'.next c = l.next c)
    (hprev : ∀ c ∈ hd :: xs, l'.prev c = l.prev c) : Ring l' hd xs :=
  ⟨h.chain.frame hnext fun c hc => hprev c ((List.perm_append_singleton hd xs).mem_iff.mp hc), h.nodup⟩

omit [DecidableEq A] in
/-- The neighbours of a cell. -/
theorem Ring.neighbours (h : Ring l hd (xs ++ z :: ys)) :
    l.next z = some (ys.headD hd) ∧ l.prev z = some (xs.getLastD hd) := by
  obtain ⟨hleft, hright⟩ := chain_append.mp h.chain
  exact ⟨hright.next_eq, hleft.prev_eq⟩

/-- A new cell is put between two neighbours. -/
theorem Ring.insert (h : Ring l hd (xs ++ ys)) (hz : z ∉ hd :: (xs ++ ys)) :
    Ring (l.insert z (xs.getLastD hd) (ys.headD hd)) hd (xs ++ z :: ys) := by
  have hne : z ≠ hd := fun heq => hz (heq ▸ List.mem_cons_self)
  refine ⟨h.chain.insert h.nodup h.nodup_concat hz hne, ?_⟩
  have hperm : (hd :: (xs ++ z :: ys)).Perm (z :: hd :: (xs ++ ys)) :=
    ((List.perm_middle (a := z)).cons hd).trans (List.Perm.swap z hd _)
  exact hperm.nodup_iff.mpr (List.nodup_cons.mpr ⟨hz, h.nodup⟩)

/-- A new first cell. -/
theorem Ring.insert_head (h : Ring l hd ys) (hz : z ∉ hd :: ys) :
    Ring (l.insert z hd (ys.headD hd)) hd (z :: ys) := by
  have hnil : Ring l hd ([] ++ ys) := h
  exact hnil.insert hz

/-- A new last cell. -/
theorem Ring.insert_last (h : Ring l hd xs) (hz : z ∉ hd :: xs) :
    Ring (l.insert z (xs.getLastD hd) hd) hd (xs ++ [z]) := by
  have hnil : Ring l hd (xs ++ []) := by rwa [List.append_nil]
  exact hnil.insert (by rwa [List.append_nil])

/-- A cell is taken out. -/
theorem Ring.join (h : Ring l hd (xs ++ z :: ys)) :
    Ring (l.join (xs.getLastD hd) (ys.headD hd)) hd (xs ++ ys) := by
  refine ⟨h.chain.join h.nodup h.nodup_concat, ?_⟩
  exact h.nodup.sublist ((List.Sublist.append_left (List.sublist_cons_self z ys) xs).cons_cons hd)

/-- The pointers of a cell outside the ring do not matter. -/
theorem Ring.reset (h : Ring l hd xs) (hz : z ∉ hd :: xs) (next prev : Option A) :
    Ring (l.reset z next prev) hd xs := by
  have hne (c : A) (hc : c ∈ hd :: xs) : c ≠ z := fun heq => hz (heq ▸ hc)
  exact h.frame (fun c hc => Function.update_of_ne (hne c hc) ..)
    fun c hc => Function.update_of_ne (hne c hc) ..

/-! ## Traversal -/

/-- Go along the pointers until the header comes again. -/
def follow (ptr : A → Option A) (hd : A) : Nat → A → Option (List A)
  | 0, _ => none
  | fuel + 1, a =>
    match ptr a with
    | none => none
    | some x => if x = hd then some [] else (follow ptr hd fuel x).map (x :: ·)

/-- A cell that points to itself is never left. -/
theorem follow_eq_none_of_self {ptr : A → Option A} {hd a : A} (h : ptr a = some a) (hne : a ≠ hd)
    (fuel : Nat) : follow ptr hd fuel a = none := by
  induction fuel with
  | zero => rfl
  | succ fuel ih => simp only [follow, h, if_neg hne, ih, Option.map_none]

theorem Chain.follow_next (h : Chain l a xs hd) (hmem : hd ∉ xs) {fuel : Nat}
    (hfuel : xs.length < fuel) : follow l.next hd fuel a = some xs := by
  induction xs generalizing a fuel with
  | nil =>
    obtain ⟨fuel, rfl⟩ := Nat.exists_eq_succ_of_ne_zero (Nat.ne_of_gt hfuel)
    simp only [follow, h.1, if_true]
  | cons x xs ih =>
    obtain ⟨fuel, rfl⟩ := Nat.exists_eq_succ_of_ne_zero (Nat.ne_of_gt (Nat.zero_lt_of_lt hfuel))
    have hne : x ≠ hd := fun heq => hmem (heq ▸ List.mem_cons_self)
    simp only [follow, h.1, if_neg hne]
    rw [ih h.2.2 (fun hc => hmem (List.mem_cons_of_mem x hc)) (Nat.lt_of_succ_lt_succ hfuel)]
    rfl

omit [DecidableEq A] in
/-- The way back is the way of the links with the directions changed. -/
theorem Chain.swap (h : Chain l a xs b) : Chain ⟨l.prev, l.next⟩ b xs.reverse a := by
  induction xs generalizing a with
  | nil => exact ⟨h.2, h.1⟩
  | cons x xs ih =>
    rw [List.reverse_cons, chain_append]
    exact ⟨ih h.2.2, h.2.1, h.1⟩

/-- Both traversals of a ring. -/
theorem Ring.follow (h : Ring l hd xs) {fuel : Nat} (hfuel : xs.length < fuel) :
    follow l.next hd fuel hd = some xs ∧ follow l.prev hd fuel hd = some xs.reverse := by
  have hmem := (List.nodup_cons.mp h.nodup).1
  refine ⟨h.chain.follow_next hmem hfuel, ?_⟩
  exact h.chain.swap.follow_next (fun hc => hmem (List.mem_reverse.mp hc))
    (by rwa [List.length_reverse])

end Links

end ProgrammingPath.Lib
