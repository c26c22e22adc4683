import ProgrammingPath.Lib.RingBuffer
import ProgrammingPath.Lib.Run

/-!
# The events of an `app_thread`

A thread has a ring of `OS_THREAD_CONF_NUMEVENTS` events, described by the position of the first one and a length.
`Lawful` is what a queue of that size owes its users; a post keeps it if and only if there is room before, since the
test in `app_thread_event_post` lets one event too many in and the result is always 0.
-/

namespace ProgrammingPath.AppThread

open ProgrammingPath.Lib

/-! ## The ring -/

variable {δ : Type}

/-- `OS_THREAD_CONF_NUMEVENTS`. -/
def numEvents : Nat := 32

/-- `app_thread_event_t`. -/
structure Event (δ : Type) where
  ev : UInt8
  data : δ

/-- The part of `app_thread_t` with the events. -/
structure Thread (δ : Type) where
  events : Nat → Event δ
  eventsPos : Nat
  eventsLength : Nat

/-- `app_thread_event_post`: the result, and the ring. -/
def eventPost (t : Thread δ) (e : Event δ) : Int × Thread δ :=
  -- with 32 events held there is no room, but one more is taken
  if t.eventsLength ≤ numEvents then
    (0, { t with
      events := Function.update t.events ((t.eventsLength + t.eventsPos) % numEvents) e
      eventsLength := t.eventsLength + 1 })
  else (0, t)

/-- `app_thread_event_pop`: the event, `none` for -1, and the ring. -/
def eventPop (t : Thread δ) : Option (Event δ) × Thread δ :=
  if 0 < t.eventsLength then
    (some (t.events t.eventsPos),
      { t with
        eventsPos := (t.eventsPos + 1) % numEvents
        eventsLength := t.eventsLength - 1 })
  else (none, t)

/-! ## Posts and pops -/

/-- A call. A pop may do without the data. -/
inductive Act (δ : Type)
  | post (e : Event δ)
  | pop (wantsData : Bool)

/-- The ring with what was said to its users: the events of the posts that returned success, and what the
successful pops returned. -/
structure Traffic (δ : Type) where
  thread : Thread δ
  accepted : List (Event δ)
  popped : List (UInt8 × Option δ)

/-- A ring at its start. -/
def Traffic.init (events : Nat → Event δ) : Traffic δ := ⟨⟨events, 0, 0⟩, [], []⟩

/-- One call, under the lock. -/
def trafficStep (s : Traffic δ) : Act δ → Option (Traffic δ)
  | .post e =>
    let (rc, thread) := eventPost s.thread e
    some { s with thread := thread, accepted := if rc = 0 then s.accepted ++ [e] else s.accepted }
  | .pop wantsData =>
    match eventPop s.thread with
    | (some e, thread) =>
      some { s with
        thread := thread
        popped := s.popped ++ [(e.ev, if wantsData then some e.data else none)] }
    | (none, thread) => some { s with thread := thread }

/-- The events that are held. -/
def Thread.held (t : Thread δ) : List (Event δ) :=
  RingBuffer.contents t.events numEvents t.eventsPos t.eventsLength

/-- What a pop returned is this event, as far as it was asked for. -/
def Returns (r : UInt8 × Option δ) (e : Event δ) : Prop := r.1 = e.ev ∧ ∀ d ∈ r.2, d = e.data

/-- There are at most so many events, the pops have returned the accepted events in their order, and the ones that
have not been returned are held: none was overwritten, and none was accepted without being stored. -/
structure Lawful (s : Traffic δ) : Prop where
  pos_lt : s.thread.eventsPos < numEvents
  length_le : s.thread.eventsLength ≤ numEvents
  returned : List.Forall₂ Returns s.popped (s.accepted.take s.popped.length)
  kept : s.thread.held = s.accepted.drop s.popped.length

/-- There is room for one more. -/
def Room (s : Traffic δ) : Act δ → Prop
  | .post _ => s.thread.eventsLength < numEvents
  | .pop _ => True

variable {s : Traffic δ} {e : Event δ}

/-- No more was returned than was accepted. -/
theorem Lawful.length_popped (h : Lawful s) : s.popped.length ≤ s.accepted.length := by
  have hlen := h.returned.length_eq
  rw [List.length_take] at hlen
  omega

/-- A post into a ring with room. -/
theorem Lawful.post_of_room (h : Lawful s) (hroom : s.thread.eventsLength < numEvents) :
    ∃ s', trafficStep s (.post e) = some s' ∧ Lawful s' := by
  have hpopped := h.length_popped
  simp only [trafficStep, eventPost, if_pos (Nat.le_of_lt hroom), if_true]
  refine ⟨_, rfl, ⟨h.pos_lt, hroom, ?_, ?_⟩⟩
  · show List.Forall₂ Returns s.popped ((s.accepted ++ [e]).take s.popped.length)
    rw [List.take_append_of_le_length hpopped]
    exact h.returned
  · show RingBuffer.contents (Function.update s.thread.events
        ((s.thread.eventsLength + s.thread.eventsPos) % numEvents) e) numEvents s.thread.eventsPos
        (s.thread.eventsLength + 1) = (s.accepted ++ [e]).drop s.popped.length
    rw [Nat.add_comm s.thread.eventsLength s.thread.eventsPos, RingBuffer.contents_update hroom,
      List.drop_append_of_le_length hpopped, ← h.kept]
    rfl

/-- A post into a full ring makes it longer than it is. -/
theorem Lawful.post_of_full (h : Lawful s) (hfull : ¬s.thread.eventsLength < numEvents) :
    ∃ s', trafficStep s (.post e) = some s' ∧ ¬Lawful s' := by
  simp only [trafficStep, eventPost, if_pos h.length_le, if_true]
  refine ⟨_, rfl, fun h' => hfull ?_⟩
  exact h'.length_le

/-- A pop returns the oldest event that has not been returned. -/
theorem Lawful.pop (h : Lawful s) (wantsData : Bool) :
    ∃ s', trafficStep s (.pop wantsData) = some s' ∧ Lawful s' := by
  by_cases hpos : 0 < s.thread.eventsLength
  · obtain ⟨len, hlen⟩ := Nat.exists_eq_succ_of_ne_zero (Nat.ne_of_gt hpos)
    have hkept := h.kept
    rw [Thread.held, hlen, RingBuffer.contents_succ, Nat.mod_eq_of_lt h.pos_lt] at hkept
    -- something is held, so more was accepted than returned
    have hlt : s.popped.length < s.accepted.length := by
      have hdrop := congrArg List.length hkept
      rw [List.length_cons, List.length_drop] at hdrop
      omega
    rw [List.drop_eq_getElem_cons hlt, List.cons.injEq] at hkept
    simp only [trafficStep, eventPop, if_pos hpos]
    refine ⟨_, rfl, ⟨Nat.mod_lt _ (by decide), ?_, ?_, ?_⟩⟩
    · exact Nat.le_trans (Nat.sub_le _ _) h.length_le
    · show List.Forall₂ Returns (s.popped ++ [_]) (s.accepted.take (s.popped ++ [_]).length)
      rw [List.length_append, List.length_singleton, List.take_succ_eq_append_getElem hlt, ← hkept.1]
      refine List.rel_append h.returned (.cons ⟨rfl, fun d hd => ?_⟩ .nil)
      -- the data is there if it was asked for
      cases wantsData with
      | true => exact (Option.some.inj hd).symm
      | false => cases hd
    · show RingBuffer.contents s.thread.events numEvents ((s.thread.eventsPos + 1) % numEvents)
          (s.thread.eventsLength - 1) = s.accepted.drop (s.popped ++ [_]).length
      rw [hlen, List.length_append, List.length_singleton]
      exact hkept.2
  · simp only [trafficStep, eventPop, if_neg hpos]
    exact ⟨_, rfl, h⟩

theorem lawful_init (events : Nat → Event δ) : Lawful (Traffic.init events) :=
  ⟨show 0 < numEvents from by decide, Nat.zero_le _, .nil, rfl⟩

/-- **The ring keeps its word exactly as long as nobody posts into a full one.** -/
theorem lawful_iff_room (events : Nat → Event δ) (acts : List (Act δ)) :
    (∀ as bs s, acts = as ++ bs → run trafficStep (Traffic.init events) as = some s → Lawful s) ↔
      Meets trafficStep Room (Traffic.init events) acts := by
  apply forall_prefix_iff_meets _ (lawful_init events)
  intro s a h
  cases a with
  | post e =>
    by_cases hroom : s.thread.eventsLength < numEvents
    · obtain ⟨s', hs', hlawful⟩ := h.post_of_room (e := e) hroom
      exact ⟨s', hs', iff_of_true hlawful hroom⟩
    · obtain ⟨s', hs', hlawful⟩ := h.post_of_full (e := e) hroom
      exact ⟨s', hs', iff_of_false hlawful hroom⟩
  | pop wantsData =>
    obtain ⟨s', hs', hlawful⟩ := h.pop wantsData
    exact ⟨s', hs', iff_of_true hlawful trivial⟩

/-- Posts of the events 0, 1, 2 and so on. -/
def posts (n : Nat) : List (Act Unit) := (List.range n).map fun k => .post ⟨UInt8.ofNat k, ()⟩

/-- The 33rd event overwrites the first one, and the 34th is not stored; both posts return 0. -/
theorem posts_overfull :
    ∃ s, run trafficStep (Traffic.init fun _ => ⟨0, ()⟩) (posts 34 ++ [.pop true]) = some s ∧
      s.accepted.length = 34 ∧ s.accepted.head?.map Event.ev = some 0 ∧
      s.popped = [(32, some ())] ∧ ¬Lawful s := by
  have hrun : (run trafficStep (Traffic.init fun _ => ⟨0, ()⟩) (posts 34 ++ [.pop true])).any
      (fun s => decide (s.accepted.length = 34 ∧ s.accepted.head?.map Event.ev = some 0 ∧
        s.popped = [(32, some ())])) = true := by decide +kernel
  obtain ⟨s, hs, hfacts⟩ := (Option.any_eq_true _ _).mp hrun
  obtain ⟨hlen, hhead, hpopped⟩ := of_decide_eq_true hfacts
  refine ⟨s, hs, hlen, hhead, hpopped, fun hlawful => ?_⟩
  have hreturned := hlawful.returned
  obtain ⟨e, rest, haccepted⟩ := List.exists_cons_of_length_pos (show 0 < s.accepted.length by omega)
  rw [haccepted] at hhead hreturned
  rw [hpopped] at hreturned
  cases hreturned with
  | cons hfirst _ =>
    have hev : e.ev = 0 := Option.some.inj hhead
    rw [Returns, hev] at hfirst
    exact absurd hfirst.1 (by decide)

end ProgrammingPath.AppThread
