import Mathlib.Data.List.Basic

/-!
# Sending without waiting

A socket that does not block takes as much of what it is given as it likes, or nothing. `sendEach` gives it one piece
after the other and does not look at what it took: what arrives is all of the pieces if and only if it took every one
of them whole (`sendEach_delivers_iff`).
-/

namespace ProgrammingPath.Lib

variable {α : Type}

/-- What the socket says to a `send`: try again, or that it took at most so much. -/
inductive Answer
  | again
  | took (n : Nat)

/-- How much it took of a piece of this length. -/
def Answer.taken : Answer → Nat → Nat
  | .again, _ => 0
  | .took n, len => min n len

/-- What was delivered, and how often the socket was asked. -/
structure Sink (α : Type) where
  delivered : List α
  calls : Nat

/-- One `send`; `sock` gives the answers. -/
def Sink.send (sock : Nat → Answer) (c : Sink α) (data : List α) : Sink α :=
  ⟨c.delivered ++ data.take ((sock c.calls).taken data.length), c.calls + 1⟩

/-- A `send` for each piece. -/
def Sink.sendEach (sock : Nat → Answer) : Sink α → List (List α) → Sink α
  | c, [] => c
  | c, piece :: pieces => (c.send sock piece).sendEach sock pieces

/-- Every piece is taken whole. -/
def TakesAll (sock : Nat → Answer) (calls : Nat) (pieces : List (List α)) : Prop :=
  ∀ i piece, pieces[i]? = some piece → (sock (calls + i)).taken piece.length = piece.length

variable {sock : Nat → Answer}

theorem Answer.taken_le (a : Answer) (len : Nat) : a.taken len ≤ len := by
  cases a with
  | again => exact Nat.zero_le len
  | took n => exact Nat.min_le_right n len

theorem takesAll_cons {calls : Nat} {piece : List α} {pieces : List (List α)} :
    TakesAll sock calls (piece :: pieces) ↔
      (sock calls).taken piece.length = piece.length ∧ TakesAll sock (calls + 1) pieces := by
  constructor
  · intro h
    refine ⟨h 0 piece rfl, fun i p hp => ?_⟩
    have hnext := h (i + 1) p hp
    rwa [Nat.add_comm i 1, ← Nat.add_assoc] at hnext
  · rintro ⟨hfirst, hrest⟩ i p hp
    cases i with
    | zero =>
      cases hp
      exact hfirst
    | succ i =>
      rw [Nat.add_comm i 1, ← Nat.add_assoc]
      exact hrest i p hp

/-- Nothing is delivered but from the pieces, so it is no more than they are. -/
theorem Sink.sendEach_delivered (sock : Nat → Answer) (c : Sink α) (pieces : List (List α)) :
    ∃ part, (c.sendEach sock pieces).delivered = c.delivered ++ part ∧ part.length ≤ pieces.flatten.length := by
  induction pieces generalizing c with
  | nil => exact ⟨[], (List.append_nil _).symm, Nat.le_refl 0⟩
  | cons piece pieces ih =>
    obtain ⟨part, hpart, hlen⟩ := ih (c.send sock piece)
    refine ⟨piece.take ((sock c.calls).taken piece.length) ++ part, ?_, ?_⟩
    · rw [sendEach, hpart, send, List.append_assoc]
    · rw [List.length_append, List.flatten_cons, List.length_append]
      have hle := List.length_take_le' ((sock c.calls).taken piece.length) piece
      omega

/-- **Sending each piece once delivers all of them if and only if the socket takes every one whole.** -/
theorem Sink.sendEach_delivers_iff (sock : Nat → Answer) (c : Sink α) (pieces : List (List α)) :
    (c.sendEach sock pieces).delivered = c.delivered ++ pieces.flatten ↔ TakesAll sock c.calls pieces := by
  induction pieces generalizing c with
  | nil =>
    refine iff_of_true (List.append_nil _).symm fun i piece h => ?_
    cases h
  | cons piece pieces ih =>
    rw [takesAll_cons, sendEach, List.flatten_cons]
    have hnext := ih (c.send sock piece)
    constructor
    · intro h
      obtain ⟨part, hpart, hlen⟩ := (c.send sock piece).sendEach_delivered sock pieces
      rw [hpart, send, List.append_assoc, List.append_cancel_left_eq] at h
      have hlens := congrArg List.length h
      rw [List.length_append, List.length_append, List.length_take] at hlens
      have hle := (sock c.calls).taken_le piece.length
      -- no later piece can make up for what is missing of this one
      have hall : (sock c.calls).taken piece.length = piece.length := by omega
      refine ⟨hall, hnext.mp ?_⟩
      rw [hall, List.take_length, List.append_cancel_left_eq] at h
      rw [hpart, h]
    · rintro ⟨hall, hrest⟩
      rw [hnext.mpr hrest, send, hall, List.take_length, List.append_assoc]

end ProgrammingPath.Lib
