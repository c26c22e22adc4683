import Mathlib.Data.Int.Init
import ProgrammingPath.Lib.Run

/-!
# Clocks of frames

A sender is called for one frame after the other, with the time that the frame takes. It writes a
frame in units and puts a time stamp on each, of which the low part is carried. The time due is the
sum of the times of the frames of which something was written. A clock that moves with every unit,
instead of with every frame, shows the time due as long as it has not drifted (`punctual_iff`).
-/

namespace ProgrammingPath.Lib

/-- A frame: its time, the units for which the clock moves, and those that are written, which are the
first of them. -/
structure Turn where
  ms : Int
  attempts : Nat
  written : Nat
  deriving DecidableEq, Repr

/-- The clock at each of the units that are written. -/
def Turn.stamps (t : Turn) (clock : Int) : List Int :=
  (List.range t.written).map fun u : Nat => clock + u * t.ms

/-- The clock afterwards. -/
def Turn.after (t : Turn) (clock : Int) : Int := clock + t.attempts * t.ms

/-- The time due afterwards. -/
def Turn.due (t : Turn) (time : Int) : Int := if t.written = 0 then time else time + t.ms

variable {low full : Int}

/-- Every stamp, of which `low` values are carried, is the time due, which has `full` values. -/
def Punctual (low full : Int) : Int → Int → List Turn → Prop
  | _, _, [] => True
  | clock, time, t :: ts =>
    (∀ stamp ∈ t.stamps clock, stamp % low = time % full) ∧
      Punctual low full (t.after clock) (t.due time) ts

/-- Whenever something is written, the time due fits and the clock has not drifted; and a frame in
several units does not move it. -/
def Steady (low full : Int) : Int → Int → List Turn → Prop
  | _, _, [] => True
  | clock, time, t :: ts =>
    (0 < t.written → time % full < low ∧ (clock - time) % low = 0) ∧
      (1 < t.written → t.ms % low = 0) ∧ Steady low full (t.after clock) (t.due time) ts

/-- The same for senders that write every unit for which the clock moves. -/
def SteadyTime (low full : Int) : Int → List Turn → Prop
  | _, [] => True
  | time, t :: ts =>
    (0 < t.written → time % full < low) ∧ (1 < t.written → t.ms % low = 0) ∧
      SteadyTime low full (t.due time) ts

instance Steady.decidable : ∀ (clock time : Int) (ts : List Turn),
    Decidable (Steady low full clock time ts)
  | _, _, [] => inferInstanceAs (Decidable True)
  | clock, time, t :: ts =>
    have := Steady.decidable (t.after clock) (t.due time) ts
    inferInstanceAs (Decidable (_ ∧ _ ∧ _))

instance SteadyTime.decidable : ∀ (time : Int) (ts : List Turn),
    Decidable (SteadyTime low full time ts)
  | _, [] => inferInstanceAs (Decidable True)
  | time, t :: ts =>
    have := SteadyTime.decidable (t.due time) ts
    inferInstanceAs (Decidable (_ ∧ _ ∧ _))

theorem mem_stamps {t : Turn} {clock stamp : Int} :
    stamp ∈ t.stamps clock ↔ ∃ u : Nat, u < t.written ∧ stamp = clock + u * t.ms := by
  simp [Turn.stamps, eq_comm]

theorem stamps_zero (ms clock : Int) (attempts : Nat) : (Turn.mk ms attempts 0).stamps clock = [] :=
  rfl

/-- The first unit, and the others after it. -/
theorem stamps_succ (ms clock : Int) (attempts attempts' written : Nat) :
    (Turn.mk ms attempts (written + 1)).stamps clock =
      clock :: (Turn.mk ms attempts' written).stamps (clock + ms) := by
  rw [Turn.stamps, Turn.stamps, List.range_succ_eq_map, List.map_cons, List.map_map]
  congr 1
  · simp
  · refine List.map_congr_left fun u _ => ?_
    show clock + ((u + 1 : Nat) : Int) * ms = clock + ms + u * ms
    rw [Int.natCast_add, Int.add_mul]
    omega

theorem after_succ (ms clock : Int) (attempts written written' : Nat) :
    (Turn.mk ms (attempts + 1) written).after clock =
      (Turn.mk ms attempts written').after (clock + ms) := by
  show clock + ((attempts + 1 : Nat) : Int) * ms = clock + ms + attempts * ms
  rw [Int.natCast_add, Int.add_mul]
  omega

/-- One number carried in its low part is another one in full. -/
theorem emod_eq_emod_iff (hfull : 0 < full) (hlow : 0 < low) (hdvd : low ∣ full) (n s : Int) :
    n % low = s % full ↔ s % full < low ∧ (n - s) % low = 0 := by
  have hnonneg : 0 ≤ s % full := Int.emod_nonneg s (by omega)
  have hmod : s % full % low = s % low := Int.emod_emod_of_dvd s hdvd
  have hsame (hlt : s % full < low) : s % full = s % low := by
    rw [← hmod, Int.emod_eq_of_lt hnonneg hlt]
  rw [← Int.emod_eq_emod_iff_emod_sub_eq_zero]
  constructor
  · intro h
    have hlt : s % full < low := h ▸ Int.emod_lt_of_pos n hlow
    exact ⟨hlt, h.trans (hsame hlt)⟩
  · rintro ⟨hlt, h⟩
    exact h.trans (hsame hlt).symm

/-- All stamps of a frame are the time due. -/
theorem stamps_eq_iff (hfull : 0 < full) (hlow : 0 < low) (hdvd : low ∣ full) (t : Turn)
    (clock time : Int) :
    (∀ stamp ∈ t.stamps clock, stamp % low = time % full) ↔
      (0 < t.written → time % full < low ∧ (clock - time) % low = 0) ∧
        (1 < t.written → t.ms % low = 0) := by
  have hcarried := emod_eq_emod_iff hfull hlow hdvd
  constructor
  · intro h
    have hstamp (u : Nat) (hu : u < t.written) := (hcarried _ _).mp (h _ (mem_stamps.mpr ⟨u, hu, rfl⟩))
    refine ⟨fun hpos => by simpa using hstamp 0 hpos, fun hone => ?_⟩
    -- the difference of the first two stamps
    have hfirst := (hstamp 0 (by omega)).2
    have hsecond := (hstamp 1 hone).2
    have hms : t.ms = (clock + (1 : Nat) * t.ms - time) - (clock + (0 : Nat) * t.ms - time) := by
      rw [Int.natCast_one, Int.one_mul, Int.natCast_zero, Int.zero_mul]
      omega
    rw [hms, Int.sub_emod, hsecond, hfirst]
    rfl
  · rintro ⟨hfits, hsteady⟩ stamp hstamp
    obtain ⟨u, hu, rfl⟩ := mem_stamps.mp hstamp
    obtain ⟨hlt, hdrift⟩ := hfits (by omega)
    refine (hcarried _ _).mpr ⟨hlt, ?_⟩
    have hmoved : (u * t.ms) % low = 0 := by
      by_cases hzero : u = 0
      · rw [hzero]
        simp
      · rw [Int.mul_emod, hsteady (by omega)]
        simp
    rw [show clock + u * t.ms - time = (clock - time) + u * t.ms by omega, Int.add_emod, hdrift,
      hmoved]
    rfl

/-- **The clock is right exactly as long as it is steady.** -/
theorem punctual_iff (hfull : 0 < full) (hlow : 0 < low) (hdvd : low ∣ full) (clock time : Int)
    (ts : List Turn) : Punctual low full clock time ts ↔ Steady low full clock time ts := by
  induction ts generalizing clock time with
  | nil => exact Iff.rfl
  | cons t ts ih => rw [Punctual, Steady, ih, stamps_eq_iff hfull hlow hdvd, and_assoc]

/-- A sender that writes every unit does not drift before a frame in several units does. -/
theorem steady_iff {ts : List Turn} (hwritten : ∀ t ∈ ts, t.attempts = t.written) {clock time : Int}
    (hdrift : (clock - time) % low = 0) :
    Steady low full clock time ts ↔ SteadyTime low full time ts := by
  induction ts generalizing clock time with
  | nil => exact Iff.rfl
  | cons t ts ih =>
    obtain ⟨hall, hrest⟩ := List.forall_mem_cons.mp hwritten
    rw [Steady, SteadyTime, and_iff_left hdrift]
    refine and_congr_right fun _ => and_congr_right fun hsteady => ih hrest ?_
    rw [Turn.after, Turn.due, hall]
    split
    · next hzero =>
      rw [hzero]
      simpa using hdrift
    · next hpos =>
      have hmoved : ((t.written - 1 : Nat) * t.ms) % low = 0 := by
        by_cases hone : t.written = 1
        · rw [hone]
          simp
        · rw [Int.mul_emod, hsteady (by omega)]
          simp
      have hsplit : clock + t.written * t.ms - (time + t.ms) =
          (clock - time) + (t.written - 1 : Nat) * t.ms := by
        rw [Int.natCast_sub (by omega), Int.sub_mul]
        omega
      rw [hsplit, Int.add_emod, hdrift, hmoved]
      rfl

/-! ## Senders -/

section Senders

variable {σ α μ : Type}

/-- Over a run: all stamps that a call adds are the time due, that is the sum of the times of the
calls before that added some. -/
def Stamped (step : σ → α → Option σ) (stamps : σ → List Nat) (ms : α → Int) (full : Int) :
    σ → Int → List α → Prop
  | _, _, [] => True
  | s, time, a :: as =>
    match step s a with
    | none => True
    | some s' =>
      let added := (stamps s').drop (stamps s).length
      (∀ stamp ∈ added, (stamp : Int) = time % full) ∧
        Stamped step stamps ms full s' (if added = [] then time else time + ms a) as

/-- A sender whose calls are turns. What a turn is depends on the call and on a mode of the sender. -/
structure Sender (σ α μ : Type) where
  step : σ → α → Option σ
  ms : α → Int
  stamps : σ → List Nat
  clock : σ → Int
  mode : σ → μ
  low : Int
  turn : μ → α → Turn
  next : μ → α → μ
  low_pos : 0 < low
  turn_ms : ∀ m a, (turn m a).ms = ms a
  stamps_step : ∀ {s a s'}, step s a = some s' → stamps s' =
    stamps s ++ ((turn (mode s) a).stamps (clock s)).map fun stamp => (stamp % low).toNat
  clock_step : ∀ {s a s'}, step s a = some s' → clock s' = (turn (mode s) a).after (clock s)
  mode_step : ∀ {s a s'}, step s a = some s' → mode s' = next (mode s) a

namespace Sender

variable (S : Sender σ α μ)

/-- The turns of some calls. -/
def turns : μ → List α → List Turn
  | _, [] => []
  | m, a :: as => S.turn m a :: turns (S.next m a) as

theorem stamped_iff_punctual {s s' : σ} {as : List α} (hrun : run S.step s as = some s')
    (time : Int) :
    Stamped S.step S.stamps S.ms full s time as ↔
      Punctual S.low full (S.clock s) time (S.turns (S.mode s) as) := by
  induction as generalizing s time with
  | nil => exact Iff.rfl
  | cons a as ih =>
    obtain ⟨s₁, hstep, hrest⟩ := run_cons_eq_some.mp hrun
    have hadded : (S.stamps s₁).drop (S.stamps s).length =
        ((S.turn (S.mode s) a).stamps (S.clock s)).map fun stamp => (stamp % S.low).toNat := by
      rw [S.stamps_step hstep, List.drop_left]
    have hcarried (stamp : Int) : ((stamp % S.low).toNat : Int) = stamp % S.low :=
      Int.toNat_of_nonneg (Int.emod_nonneg stamp (Int.ne_of_gt S.low_pos))
    have hdue : (if (S.stamps s₁).drop (S.stamps s).length = [] then time else time + S.ms a) =
        (S.turn (S.mode s) a).due time := by
      rw [hadded, Turn.due, S.turn_ms]
      simp [Turn.stamps]
    rw [Stamped, hstep]
    show (∀ stamp ∈ (S.stamps s₁).drop (S.stamps s).length, (stamp : Int) = time % full) ∧
      Stamped S.step S.stamps S.ms full s₁ _ as ↔ _
    rw [hdue, ih hrest, hadded, turns, Punctual, S.clock_step hstep, S.mode_step hstep]
    simp only [List.forall_mem_map, hcarried]

/-- The stamps are right over a run exactly when its turns are steady. -/
theorem stamped_iff_steady (hfull : 0 < full) (hdvd : S.low ∣ full) {s s' : σ} {as : List α}
    (hrun : run S.step s as = some s') (time : Int) :
    Stamped S.step S.stamps S.ms full s time as ↔
      Steady S.low full (S.clock s) time (S.turns (S.mode s) as) := by
  rw [S.stamped_iff_punctual hrun, punctual_iff hfull S.low_pos hdvd]

theorem forall_turns {p : Turn → Prop} (h : ∀ m a, p (S.turn m a)) (m : μ) (as : List α) :
    ∀ t ∈ S.turns m as, p t := by
  induction as generalizing m with
  | nil => exact fun _ ht => absurd ht List.not_mem_nil
  | cons a as ih => exact List.forall_mem_cons.mpr ⟨h m a, ih _⟩

end Sender

end Senders

end ProgrammingPath.Lib
