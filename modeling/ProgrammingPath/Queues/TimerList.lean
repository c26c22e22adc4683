import ProgrammingPath.Lib.Links
import ProgrammingPath.Lib.Run
import Mathlib.Algebra.Group.Int.Defs
import Mathlib.Algebra.Group.Nat.Defs
import Mathlib.Data.Fintype.Card

/-!
# The timers

Timers in one list, started, stopped and called from any thread. `Timer_CallNext` reads the clock, takes the lock to
look for a timer that is due, and calls it back without the lock, so other threads come in twice: before the lock and
before the callback. A run is a list of moves with their times. Its log says what was asked of the timers and which
callbacks ran; `Lawful` is what the callbacks owe to the calls before them.
-/

namespace ProgrammingPath.TimerList

open ProgrammingPath.Lib

/-! ## The list of timers -/

/-- `struct Timer`, without its place in the list. -/
structure Timer (υ : Type) where
  interval : Int
  startTime : Nat
  user : υ

/-- A `struct Timer *`. The list itself passes for a timer. -/
inductive Addr (ν : Type)
  | list
  | timer (n : ν)
  deriving DecidableEq

/-- `os_curr_timems`, from the clock in nanoseconds. -/
def osCurrTimems (now : Nat) : Nat := now / 1000000

/-- The difference of two `uint64_t`. -/
def elapsed (ostime startTime : Nat) : Nat := (ostime + 2 ^ 64 - startTime) % 2 ^ 64

/-- `Timer_Init`. The user pointer does not get into the timer. -/
def timerInit {υ : Type} (timer : Timer υ) (now : Nat) (interval : Int) (_user : υ) : Timer υ :=
  { timer with startTime := osCurrTimems now, interval := interval }

/-- The test in `Timer_Pop`, where the interval becomes an `uint64_t`. -/
def Timer.expired {υ : Type} (p : Timer υ) (ostime : Nat) : Bool :=
  elapsed ostime p.startTime > (p.interval % 2 ^ 64).toNat

/-- A thread: outside `Timer_CallNext`, with the clock read, or with a timer that it is going to call back. -/
inductive Thread (ν : Type)
  | idle
  | clock (ostime : Nat)
  | popped (n : ν)
  deriving DecidableEq

/-- What happened: a call of `Timer_Start`, one of `Timer_Stop`, or a callback. -/
inductive Event (ν υ : Type)
  | started (n : ν) (time : Nat)
  | stopped (n : ν)
  | called (n : ν) (user : υ) (time : Nat)

/-- The timers, the threads, the clock, and the log with the newest event first. -/
structure State (ν τ υ : Type) where
  links : Links (Addr ν)
  timers : ν → Timer υ
  threads : τ → Thread ν
  now : Nat
  log : List (Event ν υ)

/-- A move of a thread: a call that holds the lock from its start to its end, or a part of `Timer_CallNext`. -/
inductive Act (ν τ : Type)
  | start (n : ν)
  | stop (n : ν)
  | readClock (thread : τ)
  | pop (thread : τ)
  | call (thread : τ)

variable {ν τ υ : Type} [DecidableEq ν] [DecidableEq τ] [Fintype ν]

/-- The loop over the list, `n` being one ahead of `p`; `none` when it does not end or follows a null pointer. -/
def scan (l : Links (Addr ν)) (test : ν → Bool) : Nat → Addr ν → Option (Addr ν) → Option (Option ν)
  | 0, _, _ => none
  | _ + 1, .list, _ => some none
  | fuel + 1, .timer p, n =>
    if test p then some (some p)
    else
      match n with
      | some n => scan l test fuel n (l.next n)
      | none => none

/-- The loop from its start. There are no more timers in the list than there are timers. -/
def find (l : Links (Addr ν)) (test : ν → Bool) : Option (Option ν) :=
  match l.next .list with
  | some p => scan l test (Fintype.card ν + 1) p (l.next p)
  | none => none

/-- The timer becomes the last one. -/
def append (l : Links (Addr ν)) (n : ν) : Option (Links (Addr ν)) :=
  (l.prev .list).map fun last =>
    { next := Function.update (Function.update l.next last (some (.timer n))) (.timer n) (some .list)
      prev := Function.update (Function.update l.prev (.timer n) (some last)) .list (some (.timer n)) }

/-- The timer is taken out. -/
def unlink (l : Links (Addr ν)) (n : ν) : Option (Links (Addr ν)) :=
  match l.prev (.timer n), l.next (.timer n) with
  | some prev, some next => some (l.join prev next)
  | _, _ => none

/-- `Timer_Start`. -/
def timerStart (s : State ν τ υ) (n : ν) : Option (State ν τ υ) :=
  let timers := Function.update s.timers n { s.timers n with startTime := osCurrTimems s.now }
  let log := .started n s.now :: s.log
  match find s.links (· = n) with
  | none => none
  | some (some _) => some { s with timers := timers, log := log }
  | some none => (append s.links n).map fun links => { s with links := links, timers := timers, log := log }

/-- `Timer_Stop`. -/
def timerStop (s : State ν τ υ) (n : ν) : Option (State ν τ υ) :=
  let log := .stopped n :: s.log
  match find s.links (· = n) with
  | none => none
  | some (some p) => (unlink s.links p).map fun links => { s with links := links, log := log }
  | some none => some { s with log := log }

/-- `Timer_Pop` after its read of the clock, with what becomes of the thread. -/
def timerPop (s : State ν τ υ) (thread : τ) (ostime : Nat) : Option (State ν τ υ) :=
  match find s.links fun p => (s.timers p).expired ostime with
  | none => none
  | some (some p) =>
    (unlink s.links p).map fun links =>
      { s with links := links, threads := Function.update s.threads thread (.popped p) }
  | some none => some { s with threads := Function.update s.threads thread .idle }

/-- A move at the time that the clock shows. -/
def act (s : State ν τ υ) : Act ν τ → Option (State ν τ υ)
  | .start n => timerStart s n
  | .stop n => timerStop s n
  | .readClock thread =>
    match s.threads thread with
    | .idle =>
      some { s with threads := Function.update s.threads thread (.clock (osCurrTimems s.now)) }
    | _ => none
  | .pop thread =>
    match s.threads thread with
    | .clock ostime => timerPop s thread ostime
    | _ => none
  | .call thread =>
    match s.threads thread with
    | .popped n =>
      some { s with
        threads := Function.update s.threads thread .idle
        log := .called n (s.timers n).user s.now :: s.log }
    | _ => none

/-- A move and its time. -/
def step (s : State ν τ υ) (move : Nat × Act ν τ) : Option (State ν τ υ) :=
  act { s with now := move.1 } move.2

/-- The timers after `Timer_Init`, each in its memory, with the interval and the pointer it was given. -/
def State.init (links : Links (Addr ν)) (memory : ν → Timer υ) (interval : ν → Int) (given : ν → υ)
    (now : Nat) : State ν τ υ where
  links := links.reset .list (some .list) (some .list)
  timers := fun n => timerInit (memory n) now (interval n) (given n)
  threads := fun _ => .idle
  now := now
  log := []

/-- The thread is where the move begins, and the clock does not go back or over the end of its milliseconds. -/
def Enabled (s : State ν τ υ) (move : Nat × Act ν τ) : Prop :=
  s.now ≤ move.1 ∧ osCurrTimems move.1 < 2 ^ 64 ∧
    match move.2 with
    | .start _ | .stop _ => True
    | .readClock thread => s.threads thread = .idle
    | .pop thread => ∃ ostime, s.threads thread = .clock ostime
    | .call thread => ∃ n, s.threads thread = .popped n

/-! ## What is owed -/

/-- When a timer was started, if it was neither stopped nor called since. -/
def armed (n : ν) : List (Event ν υ) → Option Nat
  | [] => none
  | .started m time :: log => if m = n then some time else armed n log
  | .stopped m :: log => if m = n then none else armed n log
  | .called m _ _ :: log => if m = n then none else armed n log

/-- Every callback ran more than `interval` milliseconds after the last start of its timer, which had not been stopped
or called since, and got the pointer given to `Timer_Init`. -/
def Lawful (interval : ν → Int) (given : ν → υ) : List (Event ν υ) → Prop
  | [] => True
  | .called n user time :: log =>
    (∃ t, armed n log = some t ∧ t + interval n * 1000000 < time) ∧ user = given n ∧
      Lawful interval given log
  | .started _ _ :: log | .stopped _ :: log => Lawful interval given log

/-- The timers in the list, in their order. -/
def State.listed (s : State ν τ υ) : List ν :=
  ((Links.follow s.links.next .list (Fintype.card ν + 1) .list).getD []).filterMap fun
    | .timer n => some n
    | .list => none

/-- A timer was started after the clock was read. -/
def Timer.Late (p : Timer υ) (ostime : Nat) : Prop := ostime < p.startTime

/-- A timer was started more than its interval before the clock was read. -/
def Timer.Due (p : Timer υ) (ostime : Nat) : Prop := p.startTime + p.interval < ostime

instance (p : Timer υ) (ostime : Nat) : Decidable (p.Late ostime) := inferInstanceAs (Decidable (_ < _))

instance (p : Timer υ) (ostime : Nat) : Decidable (p.Due ostime) := inferInstanceAs (Decidable (_ < _))

/-- Nothing comes between: a timer that is going to be called back is not started or stopped, a timer that was started
after a thread read the clock has one that is due before it when the thread looks through the list, and the timer that
is called back has held its pointer from before `Timer_Init`. -/
def Undisturbed (given : ν → υ) (s : State ν τ υ) (move : Nat × Act ν τ) : Prop :=
  match move.2 with
  | .start n | .stop n => ∀ thread, s.threads thread ≠ .popped n
  | .readClock _ => True
  | .pop thread => ∀ ostime, s.threads thread = .clock ostime →
      ∀ p ∈ s.listed.find? fun p => (s.timers p).Late ostime ∨ (s.timers p).Due ostime,
        ¬(s.timers p).Late ostime
  | .call thread => ∀ n, s.threads thread = .popped n → (s.timers n).user = given n

/-! ## The list and the loop over it -/

variable {l : Links (Addr ν)} {xs : List ν} {n : ν}

omit [DecidableEq ν] [Fintype ν] in
theorem timer_not_mem (h : n ∉ xs) : Addr.timer n ∉ Addr.list :: xs.map Addr.timer := by
  intro hmem
  rcases List.mem_cons.mp hmem with heq | hmem
  · cases heq
  · obtain ⟨m, hm, heq⟩ := List.mem_map.mp hmem
    cases heq
    exact h hm

omit [DecidableEq ν] [Fintype ν] in
theorem nodup_of_ring (h : l.Ring .list (xs.map .timer)) : xs.Nodup :=
  List.Nodup.of_map Addr.timer (List.nodup_cons.mp h.nodup).2

omit [DecidableEq ν] [Fintype ν] in
/-- The loop stops at the first timer that meets the test. -/
theorem scan_eq {a : Addr ν} {test : ν → Bool} {fuel : Nat} (h : l.Chain a (xs.map .timer) .list)
    (hfuel : xs.length < fuel) :
    scan l test fuel ((xs.map Addr.timer).headD .list) (l.next ((xs.map Addr.timer).headD .list)) =
      some (xs.find? test) := by
  induction xs generalizing a fuel with
  | nil =>
    obtain ⟨fuel, rfl⟩ := Nat.exists_eq_succ_of_ne_zero (Nat.ne_of_gt hfuel)
    rfl
  | cons x xs ih =>
    obtain ⟨fuel, rfl⟩ := Nat.exists_eq_succ_of_ne_zero (Nat.ne_of_gt (Nat.zero_lt_of_lt hfuel))
    obtain ⟨-, -, hrest⟩ := h
    simp only [List.map_cons, List.headD_cons, scan, List.find?_cons]
    cases htest : test x with
    | true => rfl
    | false =>
      simp only [Bool.false_eq_true, if_false, hrest.next_eq]
      exact ih hrest (Nat.lt_of_succ_lt_succ hfuel)

omit [DecidableEq ν] in
theorem find_eq (h : l.Ring .list (xs.map .timer)) (test : ν → Bool) :
    find l test = some (xs.find? test) := by
  rw [find, h.chain.next_eq]
  exact scan_eq h.chain (Nat.lt_succ_of_le (nodup_of_ring h).length_le_card)

omit [Fintype ν] in
theorem append_ring (h : l.Ring .list (xs.map .timer)) (hn : n ∉ xs) :
    ∃ l', append l n = some l' ∧ l'.Ring .list ((xs ++ [n]).map .timer) := by
  have hnot := timer_not_mem hn
  have hne : (xs.map Addr.timer).getLastD .list ≠ .timer n := fun heq =>
    hnot (heq ▸ Links.getLastD_mem Addr.list (xs.map Addr.timer))
  simp only [append, h.chain.prev_eq, Option.map_some]
  refine ⟨_, rfl, ?_⟩
  rw [Function.update_comm hne, List.map_append]
  exact h.insert_last hnot

omit [Fintype ν] in
/-- A timer of the list leaves it, and the others stay. -/
theorem unlink_ring (h : l.Ring .list (xs.map .timer)) (hn : n ∈ xs) :
    ∃ (l' : Links (Addr ν)) (ys : List ν), unlink l n = some l' ∧ l'.Ring .list (ys.map .timer) ∧
      n ∉ ys ∧ ∀ k ∈ ys, k ∈ xs := by
  have hnodup := nodup_of_ring h
  obtain ⟨ys, zs, rfl⟩ := List.append_of_mem hn
  rw [List.map_append, List.map_cons] at h
  obtain ⟨hnext, hprev⟩ := h.neighbours
  simp only [unlink, hnext, hprev]
  refine ⟨_, ys ++ zs, rfl, ?_, (List.nodup_middle.mp hnodup).notMem, fun k hk => ?_⟩
  · rw [List.map_append]
    exact h.join
  · exact (List.Sublist.append_left (List.sublist_cons_self n zs) ys).mem hk

omit [Fintype ν] in
/-- The search for a timer itself. -/
theorem mem_of_find?_self {m : ν} (h : xs.find? (· = n) = some m) : m = n ∧ n ∈ xs := by
  have hm := List.find?_some h
  obtain rfl : m = n := by simpa using hm
  exact ⟨rfl, List.mem_of_find?_eq_some h⟩

omit [Fintype ν] in
theorem notMem_of_find?_self (h : xs.find? (· = n) = none) : n ∉ xs := by
  intro hmem
  have hne := List.find?_eq_none.mp h n hmem
  simp at hne

omit [DecidableEq τ] in
theorem listed_eq {s : State ν τ υ} (h : s.links.Ring .list (xs.map .timer)) : s.listed = xs := by
  have hfuel : (xs.map Addr.timer).length < Fintype.card ν + 1 := by
    rw [List.length_map]
    exact Nat.lt_succ_of_le (nodup_of_ring h).length_le_card
  rw [State.listed, (h.follow hfuel).1, Option.getD_some, List.filterMap_map]
  exact List.filterMap_some

/-! ## One move -/

/-- The timers of `xs` are the list and each of them is armed. A timer that is going to be called back is not in the
list, and has been due. -/
structure Invariant (interval : ν → Int) (given : ν → υ) (s : State ν τ υ) (xs : List ν) : Prop where
  ring : s.links.Ring .list (xs.map .timer)
  timers : ∀ n, (s.timers n).interval = interval n
  listed : ∀ n ∈ xs, ∃ t, armed n s.log = some t ∧ (s.timers n).startTime = osCurrTimems t ∧ t ≤ s.now
  popped : ∀ thread n, s.threads thread = .popped n →
    n ∉ xs ∧ ∃ t, armed n s.log = some t ∧ t + interval n * 1000000 < s.now
  single : ∀ thread thread' n, s.threads thread = .popped n → s.threads thread' = .popped n →
    thread = thread'
  clock : ∀ thread ostime, s.threads thread = .clock ostime → ostime ≤ osCurrTimems s.now
  now_lt : osCurrTimems s.now < 2 ^ 64
  lawful : Lawful interval given s.log

variable {interval : ν → Int} {given : ν → υ} {s : State ν τ υ} {thread : τ}

omit [DecidableEq τ] [Fintype ν] in
/-- Time goes by. -/
theorem Invariant.wait {now : Nat} (h : Invariant interval given s xs) (hnow : s.now ≤ now)
    (hlt : osCurrTimems now < 2 ^ 64) : Invariant interval given { s with now := now } xs where
  ring := h.ring
  timers := h.timers
  listed := fun n hn => by
    obtain ⟨t, harmed, hstart, ht⟩ := h.listed n hn
    exact ⟨t, harmed, hstart, Nat.le_trans ht hnow⟩
  popped := fun thread n hn => by
    obtain ⟨hnot, t, harmed, ht⟩ := h.popped thread n hn
    exact ⟨hnot, t, harmed, Int.lt_of_lt_of_le ht (Int.ofNat_le.mpr hnow)⟩
  single := h.single
  clock := fun thread ostime ho =>
    Nat.le_trans (h.clock thread ostime ho) (Nat.div_le_div_right hnow)
  now_lt := hlt
  lawful := h.lawful

omit [Fintype ν] in
/-- A thread gets to a place where it has no timer. -/
theorem Invariant.setThread (h : Invariant interval given s xs) (thread : τ) (place : Thread ν)
    (hpopped : ∀ n, place ≠ .popped n)
    (hclock : ∀ ostime, place = .clock ostime → ostime ≤ osCurrTimems s.now) :
    Invariant interval given { s with threads := Function.update s.threads thread place } xs := by
  have hother {thread' : τ} {n : ν} (hn : Function.update s.threads thread place thread' = .popped n) :
      s.threads thread' = .popped n := by
    by_cases heq : thread' = thread
    · rw [heq, Function.update_self] at hn
      exact absurd hn (hpopped n)
    · rwa [Function.update_of_ne heq] at hn
  refine { h with
    popped := fun thread' n hn => h.popped thread' n (hother hn)
    single := fun thread₁ thread₂ n h₁ h₂ => h.single thread₁ thread₂ n (hother h₁) (hother h₂)
    clock := fun thread' ostime ho => ?_ }
  have ho : Function.update s.threads thread place thread' = .clock ostime := ho
  by_cases heq : thread' = thread
  · rw [heq, Function.update_self] at ho
    exact hclock ostime ho
  · rw [Function.update_of_ne heq] at ho
    exact h.clock thread' ostime ho

omit [DecidableEq τ] in
theorem Invariant.timerStart (h : Invariant interval given s xs)
    (hfree : ∀ thread, s.threads thread ≠ .popped n) :
    ∃ s' xs', timerStart s n = some s' ∧ Invariant interval given s' xs' := by
  have hinterval (m : ν) : (Function.update s.timers n { s.timers n with
      startTime := osCurrTimems s.now } m).interval = interval m := by
    by_cases hm : m = n
    · subst hm
      rw [Function.update_self]
      exact h.timers m
    · rw [Function.update_of_ne hm]
      exact h.timers m
  have hlisted (m : ν) (hm : m ∈ xs ∨ m = n) : ∃ t, armed m (.started n s.now :: s.log) = some t ∧
      (Function.update s.timers n { s.timers n with
        startTime := osCurrTimems s.now } m).startTime = osCurrTimems t ∧ t ≤ s.now := by
    by_cases hmn : m = n
    · subst hmn
      rw [armed, if_pos rfl, Function.update_self]
      exact ⟨_, rfl, rfl, Nat.le_refl _⟩
    · rw [armed, if_neg (Ne.symm hmn), Function.update_of_ne hmn]
      exact h.listed m (hm.resolve_right hmn)
  have hpopped (thread : τ) (m : ν) (hm : s.threads thread = .popped m) :
      m ≠ n ∧ m ∉ xs ∧ ∃ t, armed m (.started n s.now :: s.log) = some t ∧
        t + interval m * 1000000 < s.now := by
    have hmn : m ≠ n := by
      rintro rfl
      exact hfree thread hm
    rw [armed, if_neg (Ne.symm hmn)]
    exact ⟨hmn, h.popped thread m hm⟩
  rw [TimerList.timerStart, find_eq h.ring]
  cases hfind : xs.find? (· = n) with
  | some m =>
    exact ⟨_, xs, rfl, { h with
      timers := hinterval
      listed := fun m hm => hlisted m (.inl hm)
      popped := fun thread m hm => (hpopped thread m hm).2 }⟩
  | none =>
    obtain ⟨l', hl', hring⟩ := append_ring h.ring (notMem_of_find?_self hfind)
    simp only [hl', Option.map_some]
    refine ⟨_, xs ++ [n], rfl, { h with
      ring := hring
      timers := hinterval
      listed := fun m hm => hlisted m ?_
      popped := fun thread m hm => ?_ }⟩
    · rcases List.mem_append.mp hm with hm | hm
      · exact .inl hm
      · exact .inr (List.mem_singleton.mp hm)
    · obtain ⟨hmn, hnot, ht⟩ := hpopped thread m hm
      refine ⟨fun hmem => ?_, ht⟩
      rcases List.mem_append.mp hmem with hmem | hmem
      · exact hnot hmem
      · exact hmn (List.mem_singleton.mp hmem)

omit [DecidableEq τ] in
theorem Invariant.timerStop (h : Invariant interval given s xs)
    (hfree : ∀ thread, s.threads thread ≠ .popped n) :
    ∃ s' xs', timerStop s n = some s' ∧ Invariant interval given s' xs' := by
  -- the other timers are armed as before
  have harmed (m : ν) (hmn : m ≠ n) : armed m (.stopped n :: s.log) = armed m s.log := by
    rw [armed, if_neg (Ne.symm hmn)]
  have hpopped (thread : τ) (m : ν) (hm : s.threads thread = .popped m) :
      m ∉ xs ∧ ∃ t, armed m (.stopped n :: s.log) = some t ∧ t + interval m * 1000000 < s.now := by
    have hmn : m ≠ n := by
      rintro rfl
      exact hfree thread hm
    rw [harmed m hmn]
    exact h.popped thread m hm
  rw [TimerList.timerStop, find_eq h.ring]
  cases hfind : xs.find? (· = n) with
  | some m =>
    obtain ⟨rfl, hm⟩ := mem_of_find?_self hfind
    obtain ⟨l', ys, hl', hring, hnot, hsub⟩ := unlink_ring h.ring hm
    simp only [hl', Option.map_some]
    refine ⟨_, ys, rfl, { h with
      ring := hring
      listed := fun k hk => ?_
      popped := fun thread k hk => ?_ }⟩
    · have hkm : k ≠ m := fun heq => hnot (heq ▸ hk)
      show ∃ t, armed k (.stopped m :: s.log) = some t ∧ _
      rw [harmed k hkm]
      exact h.listed k (hsub k hk)
    · obtain ⟨hout, ht⟩ := hpopped thread k hk
      exact ⟨fun hmem => hout (hsub k hmem), ht⟩
  | none =>
    have hn := notMem_of_find?_self hfind
    refine ⟨_, xs, rfl, { h with
      listed := fun k hk => ?_
      popped := hpopped }⟩
    show ∃ t, armed k (.stopped n :: s.log) = some t ∧ _
    rw [harmed k fun heq => hn (heq ▸ hk)]
    exact h.listed k hk

omit [DecidableEq ν] [Fintype ν] in
/-- If the first timer that is late or due is not late, the first one that the test takes is due. -/
theorem find_due {expired late due : ν → Prop} [DecidablePred expired] [DecidablePred late]
    [DecidablePred due] (htest : ∀ m, ¬late m → (expired m ↔ due m))
    (hfind : xs.find? (fun m => expired m) = some n)
    (hlate : ∀ p ∈ xs.find? (fun m => late m ∨ due m), ¬late p) : due n := by
  -- on the list: a timer that stops neither search is passed by both
  induction xs with
  | nil => cases hfind
  | cons x xs ih =>
    rw [List.find?_cons] at hfind hlate
    by_cases hstop : late x ∨ due x
    · rw [decide_eq_true hstop] at hlate
      have hdue := hstop.resolve_left (hlate x rfl)
      rw [decide_eq_true ((htest x (hlate x rfl)).mpr hdue)] at hfind
      cases hfind
      exact hdue
    · rw [decide_eq_false hstop] at hlate
      have hnot : ¬expired x := fun hexpired =>
        hstop (.inr ((htest x fun hx => hstop (.inl hx)).mp hexpired))
      rw [decide_eq_false hnot] at hfind
      exact ih hfind hlate

/-- For a timer that was started before the clock was read, the test is right. -/
theorem expired_iff {p : Timer υ} {ostime : Nat} (hpos : 0 ≤ p.interval ∧ p.interval < 2 ^ 31)
    (hostime : ostime < 2 ^ 64) (hlate : ¬p.Late ostime) : p.expired ostime = true ↔ p.Due ostime := by
  rw [Timer.Late] at hlate
  rw [Timer.expired, Timer.Due, elapsed, decide_eq_true_iff]
  omega

/-- The callback was not too early. -/
theorem due_time {t now ostime : Nat} {interval : Int} (hdue : osCurrTimems t + interval < ostime)
    (hostime : ostime ≤ osCurrTimems now) : t + interval * 1000000 < now := by
  rw [osCurrTimems] at hdue hostime
  omega

theorem Invariant.timerPop {ostime : Nat} (h : Invariant interval given s xs)
    (hpos : ∀ n, 0 ≤ interval n ∧ interval n < 2 ^ 31) (hthread : s.threads thread = .clock ostime)
    (hlate : ∀ p ∈ s.listed.find? fun p => (s.timers p).Late ostime ∨ (s.timers p).Due ostime,
      ¬(s.timers p).Late ostime) :
    ∃ s' xs', timerPop s thread ostime = some s' ∧ Invariant interval given s' xs' := by
  have hostime := h.clock thread ostime hthread
  rw [listed_eq h.ring] at hlate
  rw [TimerList.timerPop, find_eq h.ring]
  cases hfind : xs.find? fun p => (s.timers p).expired ostime with
  | some n =>
    have htest (m : ν) (hm : ¬(s.timers m).Late ostime) :
        (s.timers m).expired ostime = true ↔ (s.timers m).Due ostime :=
      expired_iff (by rw [h.timers]; exact hpos m) (Nat.lt_of_le_of_lt hostime h.now_lt) hm
    have hdue : (s.timers n).Due ostime :=
      @find_due ν xs n (fun m => (s.timers m).expired ostime = true) (fun m => (s.timers m).Late ostime)
        (fun m => (s.timers m).Due ostime) _ _ _ htest (by simpa using hfind) hlate
    obtain ⟨t, harmed, hstart, -⟩ := h.listed n (List.mem_of_find?_eq_some hfind)
    rw [Timer.Due, hstart, h.timers] at hdue
    have htime := due_time hdue hostime
    have hmem : n ∈ xs := List.mem_of_find?_eq_some hfind
    obtain ⟨l', ys, hl', hring, hnot, hsub⟩ := unlink_ring h.ring hmem
    simp only [hl', Option.map_some]
    -- the timer was in the list, so no other thread has it
    have hother {thread' : τ} {m : ν} (hm : s.threads thread' = .popped m) : m ≠ n := fun heq =>
      (h.popped thread' m hm).1 (heq ▸ hmem)
    -- what a thread has popped: this timer, or what it had before
    have hself {thread' : τ} {m : ν}
        (hm : Function.update s.threads thread (.popped n) thread' = .popped m) :
        thread' = thread ∧ m = n ∨ thread' ≠ thread ∧ s.threads thread' = .popped m := by
      by_cases heq : thread' = thread
      · rw [heq, Function.update_self] at hm
        cases hm
        exact .inl ⟨heq, rfl⟩
      · rw [Function.update_of_ne heq] at hm
        exact .inr ⟨heq, hm⟩
    refine ⟨_, ys, rfl, { h with
      ring := hring
      listed := fun k hk => h.listed k (hsub k hk)
      popped := fun thread' k hk => ?_
      single := fun thread₁ thread₂ k h₁ h₂ => ?_
      clock := fun thread' o ho => ?_ }⟩
    · rcases hself hk with ⟨-, rfl⟩ | ⟨-, hk⟩
      · exact ⟨hnot, t, harmed, htime⟩
      · obtain ⟨hout, ht⟩ := h.popped thread' k hk
        exact ⟨fun hmem => hout (hsub k hmem), ht⟩
    · rcases hself h₁ with ⟨rfl, rfl⟩ | ⟨-, h₁'⟩
      · rcases hself h₂ with ⟨rfl, -⟩ | ⟨-, h₂⟩
        · rfl
        · exact absurd rfl (hother h₂)
      · rcases hself h₂ with ⟨rfl, rfl⟩ | ⟨-, h₂⟩
        · exact absurd rfl (hother h₁')
        · exact h.single thread₁ thread₂ k h₁' h₂
    · have ho : Function.update s.threads thread (.popped n) thread' = .clock o := ho
      by_cases heq : thread' = thread
      · rw [heq, Function.update_self] at ho
        cases ho
      · rw [Function.update_of_ne heq] at ho
        exact h.clock thread' o ho
  | none => exact ⟨_, xs, rfl, h.setThread thread _ (fun _ => nofun) nofun⟩

omit [Fintype ν] in
/-- The callback. -/
theorem Invariant.call (h : Invariant interval given s xs) (hthread : s.threads thread = .popped n)
    (huser : (s.timers n).user = given n) :
    Invariant interval given { s with
      threads := Function.update s.threads thread .idle
      log := .called n (s.timers n).user s.now :: s.log } xs := by
  obtain ⟨hnot, harmed⟩ := h.popped thread n hthread
  have hidle := h.setThread thread .idle (fun _ => nofun) nofun
  have hother (m : ν) (hm : m ≠ n) :
      armed m (.called n (s.timers n).user s.now :: s.log) = armed m s.log := by
    rw [armed, if_neg (Ne.symm hm)]
  refine { hidle with
    listed := fun m hm => ?_
    popped := fun thread' m hm => ?_
    lawful := ⟨harmed, huser, h.lawful⟩ }
  · show ∃ t, armed m (.called n _ _ :: s.log) = some t ∧ _
    rw [hother m fun heq => hnot (heq ▸ hm)]
    exact h.listed m hm
  · have hne : thread' ≠ thread := by
      rintro rfl
      have hm : Function.update s.threads thread' .idle thread' = .popped m := hm
      rw [Function.update_self] at hm
      cases hm
    have hpopped : s.threads thread' = .popped m := (Function.update_of_ne hne ..).symm.trans hm
    -- only one thread has popped it
    have hmn : m ≠ n := by
      rintro rfl
      exact hne (h.single thread' thread m hpopped hthread)
    show m ∉ xs ∧ ∃ t, armed m (.called n _ _ :: s.log) = some t ∧ _
    rw [hother m hmn]
    exact h.popped thread' m hpopped

/-- One move. -/
theorem Invariant.step {move : Nat × Act ν τ} (h : Invariant interval given s xs)
    (hpos : ∀ n, 0 ≤ interval n ∧ interval n < 2 ^ 31) (henabled : Enabled s move)
    (hok : Undisturbed given s move) :
    ∃ s' xs', step s move = some s' ∧ Invariant interval given s' xs' := by
  obtain ⟨now, a⟩ := move
  obtain ⟨hnow, hlt, hplace⟩ := henabled
  have hwait := h.wait hnow hlt
  cases a with
  | start n => exact hwait.timerStart hok
  | stop n => exact hwait.timerStop hok
  | readClock thread =>
    have hidle : s.threads thread = .idle := hplace
    refine ⟨_, xs, ?_, hwait.setThread thread (.clock (osCurrTimems now)) ?_ ?_⟩
    · simp only [TimerList.step, act, hidle]
    · exact fun _ => nofun
    · intro ostime ho
      cases ho
      exact Nat.le_refl _
  | pop thread =>
    obtain ⟨ostime, hthread⟩ : ∃ ostime, s.threads thread = .clock ostime := hplace
    obtain ⟨s', xs', hs', hinv⟩ := hwait.timerPop hpos hthread (hok ostime hthread)
    refine ⟨s', xs', ?_, hinv⟩
    simp only [TimerList.step, act, hthread]
    exact hs'
  | call thread =>
    obtain ⟨n, hthread⟩ : ∃ n, s.threads thread = .popped n := hplace
    refine ⟨_, xs, ?_, hwait.call hthread (hok n hthread)⟩
    simp only [TimerList.step, act, hthread]

/-! ## Every interleaving -/

omit [DecidableEq τ] [Fintype ν] in
theorem invariant_init (links : Links (Addr ν)) (memory : ν → Timer υ) {now : Nat}
    (hnow : osCurrTimems now < 2 ^ 64) :
    Invariant interval given (State.init links memory interval given now : State ν τ υ) [] where
  ring := by
    refine ⟨⟨?_, ?_⟩, List.nodup_singleton _⟩
    · exact Function.update_self Addr.list (some Addr.list) links.next
    · exact Function.update_self Addr.list (some Addr.list) links.prev
  timers := fun _ => rfl
  listed := nofun
  popped := nofun
  single := nofun
  clock := nofun
  now_lt := hnow
  lawful := trivial

/-- **While nothing comes between, the timers are called back as they were started.** No move of a thread goes wrong,
and the list is a ring. -/
theorem lawful_of_undisturbed (links : Links (Addr ν)) (memory : ν → Timer υ) (given : ν → υ)
    {interval : ν → Int} {now : Nat} {moves : List (Nat × Act ν τ)}
    (hpos : ∀ n, 0 ≤ interval n ∧ interval n < 2 ^ 31) (hnow : osCurrTimems now < 2 ^ 64)
    (hok : Meets step (fun s move => Enabled s move ∧ Undisturbed given s move)
      (State.init links memory interval given now) moves) :
    ∃ s : State ν τ υ, run step (State.init links memory interval given now) moves = some s ∧
      (∃ xs : List ν, s.links.Ring .list (xs.map .timer)) ∧ Lawful interval given s.log := by
  have hstep (s : State ν τ υ) (move : Nat × Act ν τ) (h : ∃ xs, Invariant interval given s xs)
      (hok : Enabled s move ∧ Undisturbed given s move) :
      ∃ s', step s move = some s' ∧ ∃ xs, Invariant interval given s' xs := by
    obtain ⟨xs, h⟩ := h
    obtain ⟨s', xs', hs', h'⟩ := h.step hpos hok.1 hok.2
    exact ⟨s', hs', xs', h'⟩
  obtain ⟨s, hrun, xs, h⟩ := run_of_meets hstep ⟨[], invariant_init links memory hnow⟩ hok
  exact ⟨s, hrun, ⟨xs, h.ring⟩, h.lawful⟩

/-- One timer, with `user` in its memory, `interval` milliseconds and the pointer 7. -/
def single (user interval : Nat) : State Unit Bool Nat :=
  State.init ⟨fun _ => none, fun _ => none⟩ (fun _ => ⟨0, 0, user⟩) (fun _ => interval) (fun _ => 7) 0

/-- The timer of ten milliseconds is called back after eleven. -/
theorem lawful_of_undisturbed_once :
    ∃ s, run step (single 7 10) [(0, .start ()), (11000000, .readClock true), (11000000, .pop true),
        (11000000, .call true)] = some s ∧
      (∃ xs : List Unit, s.links.Ring .list (xs.map .timer)) ∧
      Lawful (fun _ => (10 : Nat)) (fun _ => 7) s.log := by
  apply lawful_of_undisturbed _ _ _ (fun _ => by decide) (by decide)
  refine ⟨⟨⟨by decide, by decide, trivial⟩, nofun⟩, ⟨⟨by decide, by decide, rfl⟩, trivial⟩,
    ⟨⟨by decide, by decide, _, rfl⟩, ?_⟩, ⟨⟨by decide, by decide, _, rfl⟩, ?_⟩, trivial⟩
  · intro ostime ho
    cases ho
    decide
  · exact fun _ _ => rfl

/-- The callback gets what was in the memory of the timer. A timer of a second that is started after another thread
read the clock is called back at once. And a timer is called back after it was stopped. -/
theorem called_wrongly :
    (∃ s, run step (single 0 10) [(0, .start ()), (11000000, .readClock true), (11000000, .pop true),
        (11000000, .call true)] = some s ∧ s.log.head? = some (.called () 0 11000000) ∧
        ¬Lawful (fun _ => (10 : Nat)) (fun _ => 7) s.log) ∧
      (∃ s, run step (single 7 1000) [(0, .readClock true), (5000000, .start ()), (5000000, .pop true),
        (5000000, .call true)] = some s ∧
        s.log = [.called () 7 5000000, .started () 5000000] ∧
        ¬Lawful (fun _ => (1000 : Nat)) (fun _ => 7) s.log) ∧
      ∃ s, run step (single 7 10) [(0, .start ()), (11000000, .readClock true), (11000000, .pop true),
        (11000000, .stop ()), (11000000, .call true)] = some s ∧
        s.log = [.called () 7 11000000, .stopped (), .started () 0] ∧
        ¬Lawful (fun _ => (10 : Nat)) (fun _ => 7) s.log := by
  refine ⟨⟨_, rfl, rfl, fun h => ?_⟩, ⟨_, rfl, rfl, fun h => ?_⟩, ⟨_, rfl, rfl, fun h => ?_⟩⟩
  · exact absurd h.2.1 (by decide)
  · obtain ⟨t, ht, hlt⟩ := h.1
    cases ht
    exact absurd hlt (by decide)
  · obtain ⟨t, ht, -⟩ := h.1
    cases ht

end ProgrammingPath.TimerList
