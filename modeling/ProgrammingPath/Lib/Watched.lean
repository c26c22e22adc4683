import Mathlib.Data.List.Basic

/-!
# Computations that are watched

A computation on a state that leaves a list of events behind: what it touched, in order. Leaving
the events out gives back the computation (`erase`), and `Clean P` says that all events of a run
satisfy `P`. Both go through sequences (`erase_bind`, `clean_bind`), so whether a program stays
within its bounds is answered operation by operation.
-/

namespace ProgrammingPath.Lib

/-- A computation on `σ` with events in `ε`. -/
def Watched (ε σ α : Type) : Type := σ → List ε × α × σ

namespace Watched

variable {ε σ α β : Type}

instance : Monad (Watched ε σ) where
  pure a := fun s => ([], a, s)
  bind w f := fun s =>
    let r := w s
    let r' := f r.2.1 r.2.2
    (r.1 ++ r'.1, r'.2)

/-- A computation without events, and one event list that depends on the state before it. -/
def watch (events : σ → List ε) (m : StateM σ α) : Watched ε σ α := fun s => (events s, m s)

/-- What a run touches. -/
def events (w : Watched ε σ α) (s : σ) : List ε := (w s).1

/-- The computation without its events. -/
def erase (w : Watched ε σ α) : StateM σ α := fun s => (w s).2

/-- All that a run touches satisfies `P`. -/
def Clean (P : ε → Prop) (w : Watched ε σ α) (s : σ) : Prop := ∀ e ∈ w.events s, P e

/-- Do the same thing `n` times. -/
def times (w : Watched ε σ α) : Nat → Watched ε σ (List α)
  | 0 => pure []
  | n + 1 => do
    let x ← w
    let xs ← w.times n
    return x :: xs

variable {P : ε → Prop} {w : Watched ε σ α} {f : α → Watched ε σ β} {s : σ}

@[simp] theorem erase_bind : erase (w >>= f) = erase w >>= fun a => erase (f a) := rfl

theorem events_bind :
    events (w >>= f) s = events w s ++ events (f (erase w s).1) (erase w s).2 := rfl

theorem clean_pure (a : α) : Clean P (pure a : Watched ε σ α) s := fun _ he => nomatch he

theorem clean_watch (events : σ → List ε) (m : StateM σ α) :
    Clean P (watch events m) s ↔ ∀ e ∈ events s, P e := Iff.rfl

/-- A sequence is clean if both parts are, the second from where the first one ended. -/
theorem clean_bind :
    Clean P (w >>= f) s ↔ Clean P w s ∧ Clean P (f (erase w s).1) (erase w s).2 := by
  unfold Clean
  rw [events_bind]
  exact List.forall_mem_append

/-- What follows does not touch anything. -/
theorem clean_bind_pure (g : α → β) : Clean P (w >>= fun a => pure (g a)) s ↔ Clean P w s := by
  rw [clean_bind]
  exact and_iff_left (clean_pure _)

end Watched

end ProgrammingPath.Lib
