import Mathlib.Data.List.Basic

/-!
# Reading from a stream socket

What arrives at a socket comes in pieces that have nothing to do with how it was sent, and between them a
call may have to try again, or fail. `Sock.recv` is one call of `recv` or `read`. Whatever the pieces, the
calls take the stream from its front and nothing gets lost (`Sock.recv_stream`). `Sock.events` is what happens
byte for byte, where the pieces are forgotten.
-/

namespace ProgrammingPath.Lib

/-- What a call meets. -/
inductive Arrival
  | bytes (c : List UInt8)
  | again
  | error
  deriving DecidableEq

/-- What is going to arrive, and whether the other side closes the connection behind it. -/
structure Sock where
  arrivals : List Arrival
  closed : Bool

/-- What a call gives back; no bytes at all are the end of the stream. -/
inductive Got
  | bytes (c : List UInt8)
  | again
  | error
  deriving DecidableEq

def Arrival.data : Arrival → List UInt8
  | .bytes c => c
  | .again => []
  | .error => []

def Got.data : Got → List UInt8
  | .bytes c => c
  | .again => []
  | .error => []

/-- A call with room for `len` bytes. `none` when nothing arrives any more: a call that waits does not come
back then. -/
def Sock.recv (s : Sock) (len : Nat) : Option (Got × Sock) :=
  match s.arrivals with
  | [] => if s.closed then some (.bytes [], s) else none
  | .again :: rest => some (.again, { s with arrivals := rest })
  | .error :: rest => some (.error, { s with arrivals := rest })
  | .bytes c :: rest =>
    if c.length ≤ len then some (.bytes c, { s with arrivals := rest })
    else some (.bytes (c.take len), { s with arrivals := .bytes (c.drop len) :: rest })

/-- All that is going to arrive. -/
def Sock.stream (s : Sock) : List UInt8 := s.arrivals.flatMap Arrival.data

/-- No call fails. -/
def Sock.Sound (s : Sock) : Prop := Arrival.error ∉ s.arrivals

variable {s s' : Sock} {len : Nat} {got : Got}

/-- What a call can come back with. -/
theorem Sock.recv_cases (h : s.recv len = some (got, s')) :
    (s.arrivals = [] ∧ got = .bytes [] ∧ s'.arrivals = []) ∨
    (∃ rest, s.arrivals = .again :: rest ∧ got = .again ∧ s'.arrivals = rest) ∨
    (∃ rest, s.arrivals = .error :: rest ∧ got = .error ∧ s'.arrivals = rest) ∨
    ∃ c rest, s.arrivals = .bytes c :: rest ∧ got = .bytes (c.take len) ∧
      (s'.arrivals = rest ∧ c.drop len = [] ∨ s'.arrivals = .bytes (c.drop len) :: rest) := by
  obtain ⟨arrivals, closed⟩ := s
  cases arrivals with
  | nil =>
    cases closed with
    | false => exact absurd h (Option.some_ne_none _).symm
    | true =>
      cases h
      exact .inl ⟨rfl, rfl, rfl⟩
  | cons a rest =>
    cases a with
    | again =>
      cases h
      exact .inr (.inl ⟨rest, rfl, rfl, rfl⟩)
    | error =>
      cases h
      exact .inr (.inr (.inl ⟨rest, rfl, rfl, rfl⟩))
    | bytes c =>
      refine .inr (.inr (.inr ⟨c, rest, rfl, ?_⟩))
      by_cases hc : c.length ≤ len
      · cases (if_pos hc).symm.trans h
        exact ⟨congrArg Got.bytes (List.take_of_length_le hc).symm, .inl ⟨rfl, List.drop_of_length_le hc⟩⟩
      · cases (if_neg hc).symm.trans h
        exact ⟨rfl, .inr rfl⟩

theorem Sock.recv_stream (h : s.recv len = some (got, s')) : s.stream = got.data ++ s'.stream := by
  unfold stream
  obtain ⟨hs, rfl, hs'⟩ | ⟨rest, hs, rfl, hs'⟩ | ⟨rest, hs, rfl, hs'⟩ | ⟨c, rest, hs, rfl, hs'⟩ := recv_cases h
  · rw [hs, hs']
    rfl
  · rw [hs, hs']
    rfl
  · rw [hs, hs']
    rfl
  · rw [hs]
    show c ++ rest.flatMap Arrival.data = c.take len ++ _
    rcases hs' with ⟨hs', hdrop⟩ | hs'
    · have hc : c.take len = c := by
        have happ := List.take_append_drop len c
        rwa [hdrop, List.append_nil] at happ
      rw [hs', hc]
    · rw [hs', List.flatMap_cons, Arrival.data, ← List.append_assoc, List.take_append_drop]

theorem Sock.recv_length_le (h : s.recv len = some (got, s')) : got.data.length ≤ len := by
  obtain ⟨-, rfl, -⟩ | ⟨rest, -, rfl, -⟩ | ⟨rest, -, rfl, -⟩ | ⟨c, rest, -, rfl, -⟩ := recv_cases h
  · exact Nat.zero_le len
  · exact Nat.zero_le len
  · exact Nat.zero_le len
  · exact List.length_take_le len c

/-- A sound socket stays one, and does not fail. -/
theorem Sock.Sound.recv (hsound : s.Sound) (h : s.recv len = some (got, s')) : s'.Sound ∧ got ≠ .error := by
  unfold Sock.Sound at hsound ⊢
  obtain ⟨-, rfl, hs'⟩ | ⟨rest, hs, rfl, hs'⟩ | ⟨rest, hs, rfl, hs'⟩ | ⟨c, rest, hs, rfl, hs'⟩ :=
    Sock.recv_cases h
  · rw [hs']
    exact ⟨List.not_mem_nil, Got.noConfusion⟩
  · rw [hs, List.mem_cons, not_or] at hsound
    rw [hs']
    exact ⟨hsound.2, Got.noConfusion⟩
  · rw [hs] at hsound
    exact absurd List.mem_cons_self hsound
  · rw [hs, List.mem_cons, not_or] at hsound
    refine ⟨?_, Got.noConfusion⟩
    rcases hs' with ⟨hs', -⟩ | hs'
    · rw [hs']
      exact hsound.2
    · rw [hs', List.mem_cons, not_or]
      exact ⟨Arrival.noConfusion, hsound.2⟩

/-! ## Byte for byte -/

/-- What happens: a byte, or a call that has to be tried again. -/
def Arrival.events : Arrival → List (Option UInt8)
  | .bytes c => c.map some
  | .again => [none]
  | .error => []

def Sock.events (s : Sock) : List (Option UInt8) := s.arrivals.flatMap Arrival.events

/-- No call fails, and none finds the end of the stream too early. -/
def Sock.Steady (s : Sock) : Prop := s.Sound ∧ Arrival.bytes [] ∉ s.arrivals

theorem Sock.stream_eq (s : Sock) : s.stream = s.events.filterMap id := by
  unfold stream events
  rw [List.filterMap_flatMap]
  refine congrArg List.flatten (List.map_congr_left fun a _ => ?_)
  cases a with
  | bytes c =>
    show c = (c.map some).filterMap id
    rw [List.filterMap_map]
    exact (List.filterMap_some (l := c)).symm
  | again => rfl
  | error => rfl

/-- What a call on a steady socket does: nothing arrives any more, or it has to be tried again, or there are bytes. -/
theorem Sock.Steady.recv (hs : s.Steady) (hlen : 0 < len) :
    (s.arrivals = [] ∧ (s.recv len = none ∨ s.recv len = some (.bytes [], s))) ∨
    (∃ s', s.recv len = some (.again, s') ∧ s.events = none :: s'.events ∧ s'.Steady ∧
      s'.arrivals.length < s.arrivals.length) ∨
    ∃ c s', s.recv len = some (.bytes c, s') ∧ c ≠ [] ∧ c.length ≤ len ∧ s.events = c.map some ++ s'.events ∧
      s'.Steady ∧ s'.arrivals.length ≤ s.arrivals.length := by
  obtain ⟨arrivals, closed⟩ := s
  obtain ⟨hsound, hpieces⟩ := hs
  cases arrivals with
  | nil =>
    cases closed with
    | false => exact .inl ⟨rfl, .inl rfl⟩
    | true => exact .inl ⟨rfl, .inr rfl⟩
  | cons a rest =>
    have hrest : Sock.Steady ⟨rest, closed⟩ :=
      ⟨fun hin => hsound (List.mem_cons_of_mem a hin), fun hin => hpieces (List.mem_cons_of_mem a hin)⟩
    cases a with
    | again => exact .inr (.inl ⟨⟨rest, closed⟩, rfl, rfl, hrest, Nat.lt_succ_self _⟩)
    | error => exact absurd List.mem_cons_self hsound
    | bytes c =>
      have hc : c ≠ [] := fun heq => hpieces (heq ▸ List.mem_cons_self)
      by_cases hle : c.length ≤ len
      · exact .inr (.inr ⟨c, ⟨rest, closed⟩, if_pos hle, hc, hle, rfl, hrest, Nat.le_succ _⟩)
      · have htake : c.take len ≠ [] := fun heq =>
          (List.take_eq_nil_iff.mp heq).elim (Nat.ne_of_gt hlen) hc
        have hdrop : c.drop len ≠ [] := fun heq => hle (List.drop_eq_nil_iff.mp heq)
        have hlater : Sock.Steady ⟨.bytes (c.drop len) :: rest, closed⟩ := by
          refine ⟨fun hin => ?_, fun hin => ?_⟩
          · rcases List.mem_cons.mp hin with heq | hin
            · exact Arrival.noConfusion heq
            · exact hrest.1 hin
          · rcases List.mem_cons.mp hin with heq | hin
            · exact hdrop (Arrival.bytes.inj heq).symm
            · exact hrest.2 hin
        refine .inr (.inr ⟨c.take len, ⟨.bytes (c.drop len) :: rest, closed⟩, if_neg hle, htake,
          List.length_take_le len c, ?_, hlater, Nat.le_refl _⟩)
        have hsplit : (c.take len).map some ++ (c.drop len).map some = c.map some := by
          rw [← List.map_append, List.take_append_drop]
        show c.map some ++ rest.flatMap Arrival.events = _
        rw [← hsplit]
        exact List.append_assoc ..

/-- A call has to be tried again behind the first `m` bytes. -/
def AgainAt : Nat → List (Option UInt8) → Prop
  | _, [] => False
  | m, none :: events => m = 0 ∨ AgainAt m events
  | 0, some _ :: _ => False
  | m + 1, some _ :: events => AgainAt m events

end ProgrammingPath.Lib
