import Mathlib.Data.List.Nodup
import Mathlib.Logic.Function.Basic

/-!
# Cells on a heap, and chains of them

A heap maps addresses to cells; `brk` bounds the addresses that were ever handed out, so that
`malloc` returns an address nobody holds. `Linked next p l` says that following `next` from the
pointer `p` meets exactly the cells of `l`, in that order, and then the null pointer. The lemmas
say what a chain becomes when a cell outside it changes, when its first cell is given back, and when
a new cell is hung behind its last one.
-/

namespace ProgrammingPath.Lib

/-- An allocated cell for some of the addresses. -/
structure Heap (β : Type) where
  cell : Nat → Option β
  brk : Nat
  fresh : ∀ a, brk ≤ a → cell a = none

namespace Heap

variable {β : Type}

/-- Nothing is allocated yet. -/
def empty : Heap β := ⟨fun _ => none, 0, fun _ _ => rfl⟩

/-- Allocate a cell and fill it; its address is the old `brk`. -/
def malloc (h : Heap β) (b : β) : Heap β where
  cell := Function.update h.cell h.brk (some b)
  brk := h.brk + 1
  fresh a ha := by rw [Function.update_of_ne (by omega), h.fresh a (by omega)]

/-- Overwrite an allocated cell. Any other address is left alone. -/
def modify (h : Heap β) (a : Nat) (f : β → β) : Heap β where
  cell := Function.update h.cell a ((h.cell a).map f)
  brk := h.brk
  fresh b hb := by
    by_cases hab : b = a
    · rw [hab, Function.update_self, ← hab, h.fresh b hb, Option.map_none]
    · rw [Function.update_of_ne hab, h.fresh b hb]

/-- Give a cell back. -/
def free (h : Heap β) (a : Nat) : Heap β where
  cell := Function.update h.cell a none
  brk := h.brk
  fresh b hb := by
    by_cases hab : b = a
    · rw [hab, Function.update_self]
    · rw [Function.update_of_ne hab, h.fresh b hb]

variable (h : Heap β) {a b : Nat} {x : β} {f : β → β}

@[simp] theorem cell_malloc_self : (h.malloc x).cell h.brk = some x := Function.update_self ..

theorem cell_malloc_of_ne (hb : b ≠ h.brk) : (h.malloc x).cell b = h.cell b :=
  Function.update_of_ne hb ..

@[simp] theorem cell_modify_self : (h.modify a f).cell a = (h.cell a).map f :=
  Function.update_self ..

theorem cell_modify_of_ne (hb : b ≠ a) : (h.modify a f).cell b = h.cell b :=
  Function.update_of_ne hb ..

theorem cell_free_of_ne (hb : b ≠ a) : (h.free a).cell b = h.cell b := Function.update_of_ne hb ..

theorem lt_brk_of_cell (ha : h.cell a = some x) : a < h.brk := by
  by_contra hlt
  rw [h.fresh a (by omega)] at ha
  cases ha

end Heap

/-! ## Chains -/

section Linked

variable {β : Type} {next : β → Option Nat} {h h' : Heap β} {p : Option Nat} {l l' : List (Nat × β)}

/-- Following `next` from `p` meets exactly these cells, and then the null pointer. -/
def Linked (next : β → Option Nat) (h : Heap β) : Option Nat → List (Nat × β) → Prop
  | p, [] => p = none
  | p, (a, x) :: l => p = some a ∧ h.cell a = some x ∧ Linked next h (next x) l

theorem Linked.unique (hl : Linked next h p l) (hl' : Linked next h p l') : l = l' := by
  induction l generalizing p l' with
  | nil =>
    cases l' with
    | nil => rfl
    | cons c l' =>
      obtain ⟨hp, -, -⟩ := hl'
      rw [show p = none from hl] at hp
      cases hp
  | cons c l ih =>
    obtain ⟨hp, hc, hn⟩ := hl
    cases l' with
    | nil =>
      rw [show p = none from hl'] at hp
      cases hp
    | cons c' l' =>
      obtain ⟨hp', hc', hn'⟩ := hl'
      have ha : c.1 = c'.1 := Option.some.inj (hp.symm.trans hp')
      have hx : c.2 = c'.2 := Option.some.inj (hc.symm.trans (ha ▸ hc'))
      rw [ih hn (hx ▸ hn'), Prod.ext ha hx]

/-- Every cell of a chain is allocated. -/
theorem Linked.cell_of_mem (hl : Linked next h p l) {c : Nat × β} (hc : c ∈ l) :
    h.cell c.1 = some c.2 := by
  induction l generalizing p with
  | nil => cases hc
  | cons c' l ih =>
    obtain ⟨-, hcell, hn⟩ := hl
    rcases List.mem_cons.mp hc with rfl | hc
    · exact hcell
    · exact ih hn hc

/-- The rest of a chain from one of its cells on. -/
theorem Linked.of_append {c : Nat × β} (hl : Linked next h p (l ++ c :: l')) :
    Linked next h (some c.1) (c :: l') := by
  induction l generalizing p with
  | nil =>
    obtain ⟨rfl, hrest⟩ := hl
    exact ⟨rfl, hrest⟩
  | cons c' l ih => exact ih hl.2.2

/-- A chain that ends meets no address twice. -/
theorem Linked.nodup (hl : Linked next h p l) : (l.map Prod.fst).Nodup := by
  induction l generalizing p with
  | nil => exact List.nodup_nil
  | cons c l ih =>
    rw [List.map_cons, List.nodup_cons]
    refine ⟨fun hmem => ?_, ih hl.2.2⟩
    -- a second visit to `c` would be followed by the same cells as the first
    obtain ⟨d, hd, hdc⟩ := List.mem_map.mp hmem
    have hdx : d = c := by
      have hcell := hl.2.2.cell_of_mem hd
      rw [hdc, hl.2.1] at hcell
      exact Prod.ext hdc (Option.some.inj hcell).symm
    obtain ⟨l₁, l₂, rfl⟩ := List.append_of_mem hd
    have hagain := Linked.of_append hl.2.2
    rw [hdx] at hagain
    have heq := Linked.unique (l := c :: (l₁ ++ d :: l₂)) ⟨rfl, hl.2⟩ hagain
    have hlen := congrArg List.length heq
    simp only [List.length_cons, List.length_append] at hlen
    omega

/-- The first address of a chain does not come up again. -/
theorem Linked.ne_head {c : Nat × β} (hl : Linked next h p (c :: l)) {d : Nat × β} (hd : d ∈ l) :
    d.1 ≠ c.1 := by
  have hnodup := hl.nodup
  rw [List.map_cons, List.nodup_cons] at hnodup
  intro heq
  exact hnodup.1 (heq ▸ List.mem_map_of_mem hd)

/-- A chain does not notice what happens outside it. -/
theorem Linked.frame (hl : Linked next h p l)
    (hframe : ∀ c ∈ l, h'.cell c.1 = h.cell c.1) : Linked next h' p l := by
  induction l generalizing p with
  | nil => exact hl
  | cons c l ih =>
    obtain ⟨hp, hc, hn⟩ := hl
    refine ⟨hp, ?_, ih hn fun d hd => hframe d (List.mem_cons_of_mem _ hd)⟩
    rw [hframe c List.mem_cons_self]
    exact hc

/-- Hang a new cell behind the last one: `g` makes the last cell point to it. -/
theorem Linked.snoc {a : Nat} {x y : β} {g : β → β} (hl : Linked next h p (l ++ [(a, x)]))
    (hg : next (g x) = some h.brk) (hy : next y = none) :
    Linked next ((h.malloc y).modify a g) p (l ++ [(a, g x), (h.brk, y)]) := by
  have hbrk : ∀ c ∈ l ++ [(a, x)], c.1 ≠ h.brk := by
    intro c hc heq
    have := h.lt_brk_of_cell (hl.cell_of_mem hc)
    omega
  have ha : a ≠ h.brk := hbrk (a, x) (by simp)
  induction l generalizing p with
  | nil =>
    obtain ⟨hp, hc, -⟩ := hl
    refine ⟨hp, ?_, hg, ?_, hy⟩
    · rw [Heap.cell_modify_self, Heap.cell_malloc_of_ne h ha, hc, Option.map_some]
    · rw [Heap.cell_modify_of_ne _ (Ne.symm ha), Heap.cell_malloc_self]
  | cons c l ih =>
    have hne : c.1 ≠ a := (hl.ne_head (List.mem_append_right l (List.mem_singleton_self (a, x)))).symm
    obtain ⟨hp, hc, hn⟩ := hl
    refine ⟨hp, ?_, ih hn fun d hd => hbrk d (List.mem_cons_of_mem _ hd)⟩
    rw [Heap.cell_modify_of_ne _ hne, Heap.cell_malloc_of_ne h (hbrk c List.mem_cons_self)]
    exact hc

/-- Give back the first cell. -/
theorem Linked.pop {a : Nat} {x : β} (hl : Linked next h p ((a, x) :: l)) :
    Linked next (h.free a) (next x) l := by
  exact hl.2.2.frame fun c hc => h.cell_free_of_ne (hl.ne_head hc)

/-- Overwrite the first cell without moving its pointer. -/
theorem Linked.modify_head {a : Nat} {x : β} {g : β → β} (hl : Linked next h p ((a, x) :: l))
    (hg : next (g x) = next x) : Linked next (h.modify a g) p ((a, g x) :: l) := by
  refine ⟨hl.1, ?_, ?_⟩
  · rw [Heap.cell_modify_self, show h.cell a = some x from hl.2.1, Option.map_some]
  · rw [hg]
    exact hl.2.2.frame fun c hc => h.cell_modify_of_ne (hl.ne_head hc)

end Linked

end ProgrammingPath.Lib
