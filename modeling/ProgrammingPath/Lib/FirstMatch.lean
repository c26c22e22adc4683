import Mathlib.Data.List.Basic

/-!
# Changing the first match

A program that looks an entry up by scanning a list and then writes through the pointer it got
changes the first match and nothing else. `updateFirst p f l` is that write. When `f` keeps the key
by which entries are found, entries that share a key keep their order, and a mark that only `f` sets
can stand on the first entry of its key only (`Leading`).
-/

namespace ProgrammingPath.Lib

variable {α κ : Type}

/-- `f` on the first entry that meets `p`. -/
def updateFirst (p : α → Bool) (f : α → α) : List α → List α
  | [] => []
  | a :: l => if p a then f a :: l else a :: updateFirst p f l

theorem map_updateFirst {p : α → Bool} {f : α → α} {key : α → κ} (hf : ∀ a, key (f a) = key a)
    (l : List α) : (updateFirst p f l).map key = l.map key := by
  induction l with
  | nil => rfl
  | cons a l ih =>
    simp only [updateFirst]
    split
    · simp [hf]
    · simp [ih]

/-- What is in the list afterwards was there before, or is the changed first match. -/
theorem mem_updateFirst {p : α → Bool} {f : α → α} {l : List α} {b : α}
    (h : b ∈ updateFirst p f l) : b ∈ l ∨ ∃ a, l.find? p = some a ∧ b = f a := by
  induction l with
  | nil => cases h
  | cons a l ih =>
    simp only [updateFirst] at h
    split at h
    · next hp =>
      obtain rfl | hb := List.mem_cons.mp h
      · exact .inr ⟨a, by simp [hp], rfl⟩
      · exact .inl (List.mem_cons_of_mem a hb)
    · next hp =>
      obtain rfl | hb := List.mem_cons.mp h
      · exact .inl List.mem_cons_self
      · obtain hb | ⟨c, hc, rfl⟩ := ih hb
        · exact .inl (List.mem_cons_of_mem a hb)
        · exact .inr ⟨c, by simp [hp, hc], rfl⟩

/-- The first match, changed, is in the list afterwards. -/
theorem mem_updateFirst_of_find {p : α → Bool} {f : α → α} {l : List α} {a : α}
    (h : l.find? p = some a) : f a ∈ updateFirst p f l := by
  induction l with
  | nil => cases h
  | cons c l ih =>
    simp only [updateFirst]
    by_cases hp : p c
    · rw [List.find?_cons_of_pos hp] at h
      cases h
      simp [hp]
    · rw [List.find?_cons_of_neg hp] at h
      simp [hp, ih h]

/-- An entry that does not match stays. -/
theorem mem_updateFirst_of_not {p : α → Bool} {f : α → α} {l : List α} {b : α} (h : b ∈ l)
    (hp : p b = false) : b ∈ updateFirst p f l := by
  induction l with
  | nil => cases h
  | cons c l ih =>
    simp only [updateFirst]
    obtain rfl | hb := List.mem_cons.mp h
    · simp [hp]
    · split
      · exact List.mem_cons_of_mem _ hb
      · exact List.mem_cons_of_mem _ (ih hb)

/-- The entries before the first match stay. -/
theorem updateFirst_append_cons {p : α → Bool} {f : α → α} {l : List α} {a : α} (r : List α)
    (hl : ∀ b ∈ l, p b = false) (ha : p a) : updateFirst p f (l ++ a :: r) = l ++ f a :: r := by
  induction l with
  | nil => simp [updateFirst, ha]
  | cons b l ih =>
    have hb := hl b List.mem_cons_self
    simp [updateFirst, hb, ih fun c hc => hl c (List.mem_cons_of_mem b hc)]

/-- The first match is found again, changed. -/
theorem find?_updateFirst {p : α → Bool} {f : α → α} (hf : ∀ a, p (f a) = p a) (l : List α) :
    (updateFirst p f l).find? p = (l.find? p).map f := by
  induction l with
  | nil => rfl
  | cons a l ih =>
    simp only [updateFirst]
    by_cases hp : p a
    · simp [hp, hf]
    · simp [hp, ih]

/-- A test of all entries is a test of the first match and of the others. -/
theorem any_eq_eraseP (p q : α → Bool) (l : List α) :
    l.any q = ((l.eraseP p).any q || (l.find? p).any q) := by
  induction l with
  | nil => rfl
  | cons a l ih =>
    by_cases hp : p a
    · simp [hp, Bool.or_comm]
    · simp [hp, ih, Bool.or_assoc]

theorem any_updateFirst {p q : α → Bool} {f : α → α} (l : List α) :
    (updateFirst p f l).any q = ((l.eraseP p).any q || (l.find? p).any fun a => q (f a)) := by
  induction l with
  | nil => rfl
  | cons a l ih =>
    simp only [updateFirst]
    by_cases hp : p a
    · simp [hp, Bool.or_comm]
    · simp [hp, ih, Bool.or_assoc]

/-- Marked entries are the first ones of their key. -/
def Leading (key : α → κ) (marked : α → Bool) (l : List α) : Prop :=
  l.Pairwise fun a b => marked b → key a ≠ key b

/-- A write to the first entry of a key keeps the marks on first entries. -/
theorem Leading.updateFirst [DecidableEq κ] {key : α → κ} {marked : α → Bool} {l : List α} {k : κ}
    {f : α → α} (hf : ∀ a, key (f a) = key a) (h : Leading key marked l) :
    Leading key marked (updateFirst (fun a => key a == k) f l) := by
  induction l with
  | nil => exact h
  | cons a l ih =>
    obtain ⟨ha, hl⟩ := List.pairwise_cons.mp h
    simp only [Lib.updateFirst]
    split
    · refine List.pairwise_cons.mpr ⟨?_, hl⟩
      intro b hb hm
      rw [hf]
      exact ha b hb hm
    · next hk =>
      refine List.pairwise_cons.mpr ⟨?_, ih hl⟩
      intro b hb hm
      obtain hb | ⟨c, hc, rfl⟩ := mem_updateFirst hb
      · exact ha b hb hm
      · -- the changed entry has the key `k`, which `a` has not
        have hck : key c = k := by simpa using List.find?_some hc
        rw [hf, hck]
        simpa using hk

/-- Marked entries with one key are one entry. -/
theorem Leading.length_le_one {key : α → κ} {marked : α → Bool} {l : List α}
    (h : Leading key marked l) {k : κ} {p : α → Bool} (hp : ∀ a, p a → marked a)
    (hk : ∀ a ∈ l, p a → key a = k) : (l.filter p).length ≤ 1 := by
  induction l with
  | nil => exact Nat.zero_le 1
  | cons a l ih =>
    obtain ⟨ha, hl⟩ := List.pairwise_cons.mp h
    by_cases hpa : p a
    · -- `a` is the one: no later entry with its key is marked
      have hnone : l.filter p = [] := by
        apply List.filter_eq_nil_iff.mpr
        intro b hb hpb
        apply ha b hb (hp b hpb)
        rw [hk a List.mem_cons_self hpa, hk b (List.mem_cons_of_mem a hb) hpb]
      simp [hpa, hnone]
    · rw [List.filter_cons_of_neg hpa]
      exact ih hl (fun b hb => hk b (List.mem_cons_of_mem a hb))

end ProgrammingPath.Lib
