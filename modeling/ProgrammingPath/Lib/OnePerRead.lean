import Mathlib.Algebra.GroupWithZero.Nat
import Mathlib.Data.List.Basic

/-!
# One message for each read

A stream of messages arrives in reads that have nothing to do with where the messages end, and after each read the
first message is taken if all of it is there: one, however many there are. `takeOne` is such a read, in lengths only.
All messages are taken in the end if and only if no part of the reads at the end is left with more messages that end
in it than it has reads (`takeOne_all_iff`).
-/

namespace ProgrammingPath.Lib

/-- How many of the messages of these lengths end behind the first `n` bytes. -/
def endsAfter : List Nat → Nat → Nat
  | [], _ => 0
  | m :: ms, n => if m ≤ n then endsAfter ms (n - m) else ms.length + 1

/-- A read of `k` bytes, when messages of these lengths are not taken yet and `held` bytes of them are there. -/
def takeOne : List Nat × Nat → Nat → List Nat × Nat
  | ([], held), k => ([], held + k)
  | (m :: ms, held), k => if m ≤ held + k then (ms, held + k - m) else (m :: ms, held + k)

theorem endsAfter_le (ms : List Nat) (n : Nat) : endsAfter ms n ≤ ms.length := by
  induction ms generalizing n with
  | nil => exact Nat.le_refl 0
  | cons m ms ih =>
    rw [endsAfter, List.length_cons]
    split
    · exact Nat.le_succ_of_le (ih (n - m))
    · exact Nat.le_refl _

theorem endsAfter_of_le {m n : Nat} (h : m ≤ n) (ms : List Nat) :
    endsAfter (m :: ms) n = endsAfter ms (n - m) := if_pos h

theorem endsAfter_of_lt {m n : Nat} (h : n < m) (ms : List Nat) :
    endsAfter (m :: ms) n = ms.length + 1 := if_neg (Nat.not_le.mpr h)

theorem takeOne_of_le {m held k : Nat} (h : m ≤ held + k) (ms : List Nat) :
    takeOne (m :: ms, held) k = (ms, held + k - m) := if_pos h

theorem takeOne_of_lt {m held k : Nat} (h : held + k < m) (ms : List Nat) :
    takeOne (m :: ms, held) k = (m :: ms, held + k) := if_neg (Nat.not_le.mpr h)

/-- What holds for every division of a list holds for the one before its first member and for all others. -/
theorem forall_split_cons {α : Type} {P : List α → List α → Prop} {a : α} {l : List α} :
    (∀ as bs, a :: l = as ++ bs → P as bs) ↔ P [] (a :: l) ∧ ∀ as bs, l = as ++ bs → P (a :: as) bs := by
  constructor
  · intro h
    refine ⟨h [] (a :: l) rfl, fun as bs happ => ?_⟩
    exact h (a :: as) bs (congrArg (a :: ·) happ)
  · rintro ⟨hnil, hcons⟩ as bs happ
    cases as with
    | nil => rwa [← show a :: l = bs from happ]
    | cons b as =>
      rw [List.cons_append, List.cons.injEq] at happ
      obtain ⟨rfl, happ⟩ := happ
      exact hcons as bs happ

/-- All messages are taken in the end. The first part is for those that were complete before the first read. -/
theorem takeOne_all_iff (ms : List Nat) (held : Nat) (reads : List Nat) :
    (reads.foldl takeOne (ms, held)).1 = [] ↔
      ms.length ≤ reads.length ∧
        ∀ as bs, reads = as ++ bs → endsAfter ms (held + as.sum) ≤ bs.length := by
  induction reads generalizing ms held with
  | nil =>
    constructor
    · rintro rfl
      exact ⟨Nat.le_refl 0, fun _ _ _ => Nat.zero_le _⟩
    · rintro ⟨hlen, -⟩
      exact List.length_eq_zero_iff.mp (Nat.le_zero.mp hlen)
  | cons k reads ih =>
    rw [List.foldl_cons, forall_split_cons]
    cases ms with
    | nil =>
      rw [takeOne, ih]
      exact iff_of_true ⟨Nat.zero_le _, fun _ _ _ => Nat.zero_le _⟩
        ⟨Nat.zero_le _, Nat.zero_le _, fun _ _ _ => Nat.zero_le _⟩
    | cons m ms =>
      have hsum : ∀ as : List Nat, held + (k :: as).sum = held + k + as.sum := fun as => by
        rw [List.sum_cons, Nat.add_assoc]
      rw [takeOne]
      split
      · next hle =>
        -- the first message is taken: it ends before any of the later places
        have hends : ∀ as : List Nat, endsAfter (m :: ms) (held + (k :: as).sum) =
            endsAfter ms (held + k - m + as.sum) := fun as => by
          rw [hsum, endsAfter_of_le (by omega), show held + k + as.sum - m = held + k - m + as.sum by omega]
        rw [ih]
        simp only [hends, List.length_cons, Nat.succ_le_succ_iff]
        constructor
        · rintro ⟨hlen, hall⟩
          refine ⟨hlen, ?_, hall⟩
          exact Nat.le_trans (endsAfter_le (m :: ms) _) (Nat.succ_le_succ hlen)
        · rintro ⟨hlen, -, hall⟩
          exact ⟨hlen, hall⟩
      · next hlt =>
        -- nothing is taken: all of them end behind this place
        rw [ih]
        simp only [hsum]
        constructor
        · rintro ⟨hlen, hall⟩
          refine ⟨Nat.le_succ_of_le hlen, ?_, hall⟩
          exact Nat.le_trans (endsAfter_le (m :: ms) _) (Nat.le_succ_of_le hlen)
        · rintro ⟨-, -, hall⟩
          refine ⟨?_, hall⟩
          have hfirst := hall [] reads rfl
          rwa [List.sum_nil, Nat.add_zero, endsAfter_of_lt (Nat.not_le.mp hlt)] at hfirst

/-- From the beginning, when no message is there yet. -/
theorem takeOne_all_iff_of_pos {ms : List Nat} (hpos : ∀ m ∈ ms, 0 < m) (reads : List Nat) :
    (reads.foldl takeOne (ms, 0)).1 = [] ↔
      ∀ as bs, reads = as ++ bs → endsAfter ms as.sum ≤ bs.length := by
  rw [takeOne_all_iff]
  simp only [Nat.zero_add]
  refine and_iff_right_of_imp fun hall => ?_
  have hfirst := hall [] reads rfl
  cases ms with
  | nil => exact Nat.zero_le _
  | cons m ms => rwa [List.sum_nil, endsAfter_of_lt (hpos m List.mem_cons_self)] at hfirst

/-- The same for the chunks of bytes that were read. -/
theorem takeOne_all_iff_of_chunks {α : Type} {ms : List Nat} (hpos : ∀ m ∈ ms, 0 < m) (chunks : List (List α)) :
    ((chunks.map List.length).foldl takeOne (ms, 0)).1 = [] ↔
      ∀ as bs, chunks = as ++ bs → endsAfter ms as.flatten.length ≤ bs.length := by
  rw [takeOne_all_iff_of_pos hpos]
  constructor
  · rintro h as bs rfl
    have hlen := h (as.map List.length) (bs.map List.length) List.map_append
    rwa [← List.length_flatten, List.length_map] at hlen
  · intro h as bs happ
    obtain ⟨as', bs', rfl, rfl, rfl⟩ := List.map_eq_append_iff.mp happ
    rw [← List.length_flatten, List.length_map]
    exact h as' bs' rfl

end ProgrammingPath.Lib
