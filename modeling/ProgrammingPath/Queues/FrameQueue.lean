import ProgrammingPath.Lib.RingBuffer
import ProgrammingPath.Lib.Run

/-!
# `FrameQueue`

A ring of frames between one producer and one consumer. Both run in their own thread, so a call is split where the
other side can come in between: `State` has the place either of them is at, and a step is one move of one of them.
`frame_queue_next` moves `rindex` on before it unreferences the frame there. `Invariant` says where every frame is
while that spares the frames that were not read; `delivers_of_spares` says what the consumer gets then.
-/

namespace ProgrammingPath.FrameQueue

open ProgrammingPath.Lib

/-! ## The queue -/

/-- `FRAME_QUEUE_SIZE`. -/
def frameQueueSize : Nat := 20

/-- A frame with data, and its place in the order in which the producer filled them. -/
structure Frame (φ : Type) where
  no : Nat
  data : φ
  deriving DecidableEq

/-- `FrameQueue`, without the lock. A slot is `none` while its frame references nothing. -/
structure Queue (φ : Type) where
  queue : Nat → Option (Frame φ)
  rindex : Nat
  windex : Nat
  rindexShown : Nat
  keepLast : Bool
  size : Int
  maxSize : Nat

variable {φ : Type}

/-- `frame_queue_init`. -/
def Queue.init (maxSize : Nat) (keepLast : Bool) : Queue φ where
  queue := fun _ => none
  rindex := 0
  windex := 0
  rindexShown := 0
  keepLast := keepLast
  size := 0
  maxSize := min maxSize frameQueueSize

/-- `frame_queue_peek_writable`: the slot; `none` while the caller waits. -/
def Queue.peekWritable (f : Queue φ) : Option Nat :=
  if f.size ≥ f.maxSize then none else some f.windex

/-- `frame_queue_peek_readable`: the slot; `none` while the caller waits. -/
def Queue.peekReadable (f : Queue φ) : Option Nat :=
  if f.size - f.rindexShown ≤ 0 then none else some ((f.rindex + f.rindexShown) % f.maxSize)

/-- `frame_queue_peek_last`: the frame in the slot. -/
def Queue.peekLast (f : Queue φ) : Option (Frame φ) := f.queue f.rindex

/-- An index moves on. -/
def Queue.bump (f : Queue φ) (index : Nat) : Nat := if index + 1 = f.maxSize then 0 else index + 1

/-! ## The two threads -/

/-- Where the producer is: it has a slot to write to, has filled it, or is in `frame_queue_push` with `windex`
moved on. -/
inductive Producer (φ : Type)
  | idle
  | writable (slot : Nat)
  | filled (frame : Frame φ)
  | moved (frame : Frame φ)

/-- Where the consumer is: it has a slot to read, has read it, or is in `frame_queue_next` with `rindex` moved on,
or with the frame unreferenced. -/
inductive Consumer
  | idle
  | readable (slot : Nat)
  | read
  | moved
  | unrefed
  deriving DecidableEq

/-- The queue and its threads; the frames pushed, what the consumer read, and the frames that
`frame_queue_next` unreferenced although they were pushed and not read. -/
structure State (φ : Type) where
  f : Queue φ
  producer : Producer φ
  consumer : Consumer
  pushed : List (Frame φ)
  reads : List (Option (Frame φ))
  lost : List (Frame φ)

def State.init (maxSize : Nat) (keepLast : Bool) : State φ :=
  ⟨Queue.init maxSize keepLast, .idle, .idle, [], [], []⟩

/-- A frame was pushed and not read. -/
def State.Unread (s : State φ) (x : Frame φ) : Prop :=
  x.no ∈ s.pushed.map Frame.no ∧ some x.no ∉ s.reads.map (Option.map Frame.no)

instance (s : State φ) (x : Frame φ) : Decidable (s.Unread x) := inferInstanceAs (Decidable (_ ∧ _))

/-- The moves. The last one of `push` and of `next` is the one under the lock. -/
inductive Act (φ : Type)
  | peekWritable
  | fill (data : φ)
  | pushWindex
  | pushSize
  | peekReadable
  | read
  | next
  | nextUnref
  | nextSize

/-- One move; `none` when the thread is not there, or waits. -/
def step (s : State φ) : Act φ → Option (State φ)
  | .peekWritable =>
    match s.producer with
    | .idle => s.f.peekWritable.map fun slot => { s with producer := .writable slot }
    | _ => none
  | .fill data =>
    match s.producer with
    | .writable slot =>
      let frame := ⟨s.pushed.length, data⟩
      some { s with
        f := { s.f with queue := Function.update s.f.queue slot (some frame) }
        producer := .filled frame }
    | _ => none
  | .pushWindex =>
    match s.producer with
    | .filled frame =>
      some { s with f := { s.f with windex := s.f.bump s.f.windex }, producer := .moved frame }
    | _ => none
  | .pushSize =>
    match s.producer with
    | .moved frame =>
      some { s with
        f := { s.f with size := s.f.size + 1 }
        producer := .idle
        pushed := s.pushed ++ [frame] }
    | _ => none
  | .peekReadable =>
    match s.consumer with
    | .idle => s.f.peekReadable.map fun slot => { s with consumer := .readable slot }
    | _ => none
  | .read =>
    match s.consumer with
    | .readable slot => some { s with consumer := .read, reads := s.reads ++ [s.f.queue slot] }
    | _ => none
  | .next =>
    match s.consumer with
    | .read =>
      -- the first call with `keep_last` only shows the frame
      if s.f.keepLast ∧ s.f.rindexShown = 0 then
        some { s with f := { s.f with rindexShown := 1 }, consumer := .idle }
      else some { s with f := { s.f with rindex := s.f.bump s.f.rindex }, consumer := .moved }
    | _ => none
  | .nextUnref =>
    match s.consumer with
    | .moved =>
      some { s with
        f := { s.f with queue := Function.update s.f.queue s.f.rindex none }
        consumer := .unrefed
        -- `rindex` was moved on before: the slot is not the one that was read
        lost := s.lost ++ (s.f.queue s.f.rindex).toList.filter fun x => s.Unread x }
    | _ => none
  | .nextSize =>
    match s.consumer with
    | .unrefed => some { s with f := { s.f with size := s.f.size - 1 }, consumer := .idle }
    | _ => none

/-- What a move that is made has found, and what it leaves. -/
inductive Move (s : State φ) : Act φ → State φ → Prop
  | peekWritable {slot : Nat} (hplace : s.producer = .idle) (hslot : s.f.peekWritable = some slot) :
    Move s .peekWritable { s with producer := .writable slot }
  | fill {data : φ} {slot : Nat} (hplace : s.producer = .writable slot) :
    Move s (.fill data) { s with
      f := { s.f with queue := Function.update s.f.queue slot (some ⟨s.pushed.length, data⟩) }
      producer := .filled ⟨s.pushed.length, data⟩ }
  | pushWindex {frame : Frame φ} (hplace : s.producer = .filled frame) :
    Move s .pushWindex { s with f := { s.f with windex := s.f.bump s.f.windex }, producer := .moved frame }
  | pushSize {frame : Frame φ} (hplace : s.producer = .moved frame) :
    Move s .pushSize { s with
      f := { s.f with size := s.f.size + 1 }
      producer := .idle
      pushed := s.pushed ++ [frame] }
  | peekReadable {slot : Nat} (hplace : s.consumer = .idle) (hslot : s.f.peekReadable = some slot) :
    Move s .peekReadable { s with consumer := .readable slot }
  | read {slot : Nat} (hplace : s.consumer = .readable slot) :
    Move s .read { s with consumer := .read, reads := s.reads ++ [s.f.queue slot] }
  | nextShown (hplace : s.consumer = .read) (hfirst : s.f.keepLast ∧ s.f.rindexShown = 0) :
    Move s .next { s with f := { s.f with rindexShown := 1 }, consumer := .idle }
  | next (hplace : s.consumer = .read) (hlater : ¬(s.f.keepLast ∧ s.f.rindexShown = 0)) :
    Move s .next { s with f := { s.f with rindex := s.f.bump s.f.rindex }, consumer := .moved }
  | nextUnref (hplace : s.consumer = .moved) :
    Move s .nextUnref { s with
      f := { s.f with queue := Function.update s.f.queue s.f.rindex none }
      consumer := .unrefed
      lost := s.lost ++ (s.f.queue s.f.rindex).toList.filter fun x => s.Unread x }
  | nextSize (hplace : s.consumer = .unrefed) :
    Move s .nextSize { s with f := { s.f with size := s.f.size - 1 }, consumer := .idle }

theorem move_of_step {s s' : State φ} {a : Act φ} (hstep : step s a = some s') : Move s a s' := by
  cases a with
  | peekWritable =>
    simp only [step] at hstep
    split at hstep
    · next hplace =>
      obtain ⟨slot, hslot, rfl⟩ := Option.map_eq_some_iff.mp hstep
      exact .peekWritable hplace hslot
    · cases hstep
  | peekReadable =>
    simp only [step] at hstep
    split at hstep
    · next hplace =>
      obtain ⟨slot, hslot, rfl⟩ := Option.map_eq_some_iff.mp hstep
      exact .peekReadable hplace hslot
    · cases hstep
  | next =>
    simp only [step] at hstep
    split at hstep
    · next hplace =>
      split at hstep
      · next hfirst =>
        cases hstep
        exact .nextShown hplace hfirst
      · next hlater =>
        cases hstep
        exact .next hplace hlater
    · cases hstep
  | fill | pushWindex | pushSize | read | nextUnref | nextSize =>
    simp only [step] at hstep
    split at hstep
    · next hplace =>
      cases hstep
      constructor
      exact hplace
    · cases hstep

/-! ## Where the frames are -/

/-- The frame that is filled and not pushed. -/
def Producer.inFlight : Producer φ → List (Frame φ)
  | .idle | .writable _ => []
  | .filled frame | .moved frame => [frame]

/-- How far `windex` is ahead of the frames pushed. -/
def Producer.windexAhead : Producer φ → Nat
  | .idle | .writable _ | .filled _ => 0
  | .moved _ => 1

/-- Whether the producer has a slot. -/
def Producer.claimed : Producer φ → Nat
  | .idle => 0
  | .writable _ | .filled _ | .moved _ => 1

/-- How far the reads are ahead of the frames that are done with. -/
def Consumer.readAhead : Consumer → Nat
  | .idle | .readable _ => 0
  | .read | .moved | .unrefed => 1

/-- How far `rindex` is ahead of the frames that are done with. -/
def Consumer.rindexAhead : Consumer → Nat
  | .idle | .readable _ | .read => 0
  | .moved | .unrefed => 1

/-- The frames filled so far. -/
def State.frames (s : State φ) : List (Frame φ) := s.pushed ++ s.producer.inFlight

/-- What the consumer knows where it is: it has the slot of the first frame that it did not read, and in
`frame_queue_next` `rindex_shown` is what `keep_last` says. -/
def Consumer.Sound (s : State φ) : Consumer → Prop
  | .idle | .read => True
  | .readable slot => slot = s.reads.length % s.f.maxSize ∧ s.reads.length < s.pushed.length
  | .moved | .unrefed => s.f.rindexShown = if s.f.keepLast then 1 else 0

/-- `done` frames are done with. The indices count the frames round the ring, a frame has the slot of its number,
and the frames that were not read are there. -/
structure Invariant (s : State φ) (done : Nat) : Prop where
  pos : 0 < s.f.maxSize
  size : s.f.size = s.pushed.length - done
  windex : s.f.windex = (s.pushed.length + s.producer.windexAhead) % s.f.maxSize
  rindex : s.f.rindex = (done + s.consumer.rindexAhead) % s.f.maxSize
  shown : s.f.rindexShown ≤ if s.f.keepLast then 1 else 0
  reads : s.reads.length = done + s.f.rindexShown + s.consumer.readAhead
  room : s.pushed.length + s.producer.claimed ≤ done + s.f.maxSize
  writable : ∀ slot, s.producer = .writable slot → slot = s.pushed.length % s.f.maxSize
  consumer : s.consumer.Sound s
  no : ∀ k (x : Frame φ), s.frames[k]? = some x → x.no = k
  place : ∀ i (x : Frame φ), s.f.queue i = some x → x.no % s.f.maxSize = i
  stored : ∀ k x, s.reads.length ≤ k → s.frames[k]? = some x → s.f.queue (k % s.f.maxSize) = some x
  reads_prefix : s.reads <+: s.pushed.map some
  spared : s.lost = []

variable {s s' : State φ} {done : Nat}

theorem bump_eq {f : Queue φ} (hpos : 0 < f.maxSize) (n : Nat) :
    f.bump (n % f.maxSize) = (n + 1) % f.maxSize := by
  rw [Queue.bump, ← Nat.mod_add_mod]
  have hlt := Nat.mod_lt n hpos
  split
  · next heq => rw [heq, Nat.mod_self]
  · exact (Nat.mod_eq_of_lt (by omega)).symm

theorem Invariant.reads_le (h : Invariant s done) : s.reads.length ≤ s.pushed.length := by
  have hlen := h.reads_prefix.length_le
  rwa [List.length_map] at hlen

theorem length_frames_le (s : State φ) : s.frames.length ≤ s.pushed.length + s.producer.claimed := by
  rw [State.frames, List.length_append]
  cases s.producer <;> simp [Producer.inFlight, Producer.claimed]

/-- Two numbers less than a round apart have different slots. -/
theorem slot_ne {cap i j : Nat} (hij : i < j) (hj : j < i + cap) : i % cap ≠ j % cap := by
  -- a ring of this size has them at different places
  have hne : (i + 0) % cap ≠ (i + (j - i)) % cap := RingBuffer.index_ne (by omega) (by omega)
  rwa [Nat.add_zero, Nat.add_sub_cancel' (Nat.le_of_lt hij)] at hne

theorem getElem?_concat_or {α : Type} {l : List α} {a x : α} {k : Nat} (h : (l ++ [a])[k]? = some x) :
    l[k]? = some x ∨ k = l.length ∧ x = a := by
  rcases Nat.lt_trichotomy k l.length with hk | rfl | hk
  · rw [List.getElem?_append_left hk] at h
    exact .inl h
  · rw [List.getElem?_concat_length] at h
    exact .inr ⟨rfl, (Option.some.inj h).symm⟩
  · rw [List.getElem?_eq_none (by rw [List.length_append]; exact hk)] at h
    cases h

theorem invariant_init {maxSize : Nat} (hmax : 1 ≤ maxSize) (keepLast : Bool) :
    Invariant (State.init maxSize keepLast : State φ) 0 where
  pos := Nat.lt_min.mpr ⟨hmax, (by decide : 0 < frameQueueSize)⟩
  size := rfl
  windex := (Nat.zero_mod _).symm
  rindex := (Nat.zero_mod _).symm
  shown := Nat.zero_le _
  reads := rfl
  room := Nat.zero_le _
  writable := nofun
  consumer := trivial
  no := nofun
  place := nofun
  stored := nofun
  reads_prefix := List.nil_prefix
  spared := rfl

/-! ## The moves of the producer -/

theorem Invariant.peekWritable (h : Invariant s done) (hstep : step s .peekWritable = some s') :
    Invariant s' done := by
  cases move_of_step hstep with
  | @peekWritable slot hidle hslot =>
    simp only [Queue.peekWritable, Option.ite_none_left_eq_some] at hslot
    obtain ⟨hroom, hslot⟩ := hslot
    have hsize := h.size
    have hwindex := h.windex
    have hframes : State.frames { s with producer := .writable slot } = s.frames := by
      simp only [State.frames, hidle, Producer.inFlight]
    rw [hidle] at hwindex
    refine { h with windex := h.windex.trans ?_, room := ?_, writable := ?_, no := ?_, stored := ?_ }
    · rw [hidle]
      rfl
    · show s.pushed.length + 1 ≤ done + s.f.maxSize
      omega
    · intro slot' hslot'
      cases hslot'
      rw [← Option.some.inj hslot]
      exact hwindex
    · rw [hframes]
      exact h.no
    · rw [hframes]
      exact h.stored

/-- The new frame goes to a slot of its own. -/
theorem Invariant.fill {data : φ} (h : Invariant s done) (hstep : step s (.fill data) = some s') :
    Invariant s' done := by
  cases move_of_step hstep with
  | @fill _ slot hslot =>
    have hreads := h.reads
    have hle := h.reads_le
    have hroom := h.room
    obtain rfl := h.writable slot hslot
    have hframes : s.frames = s.pushed := by
      rw [State.frames, hslot]
      exact List.append_nil _
    have hno := h.no
    have hstored := h.stored
    rw [hframes] at hno hstored
    rw [hslot] at hroom
    refine { h with windex := h.windex.trans ?_, room := hroom, writable := nofun, no := ?_,
                    place := ?_, stored := ?_ }
    · rw [hslot]
      rfl
    · intro k x hk
      rcases getElem?_concat_or hk with hk | ⟨rfl, rfl⟩
      · exact hno k x hk
      · rfl
    -- the number of the new frame is that of its slot
    · intro i x hx
      by_cases hi : i = s.pushed.length % s.f.maxSize
      · subst hi
        have hx : Function.update s.f.queue _ _ _ = some x := hx
        rw [Function.update_self] at hx
        cases hx
        rfl
      · exact h.place i x ((Function.update_of_ne hi ..).symm.trans hx)
    · intro k x hk hkx
      show Function.update s.f.queue _ _ _ = some x
      rcases getElem?_concat_or hkx with hkx | ⟨rfl, rfl⟩
      · have hlt : k < s.pushed.length := (List.getElem?_eq_some_iff.mp hkx).1
        -- an unread frame is less than a round behind the new one
        have hroom : s.pushed.length + 1 ≤ done + s.f.maxSize := hroom
        have hk : s.reads.length ≤ k := hk
        rw [Function.update_of_ne (slot_ne hlt (by omega))]
        exact hstored k x hk hkx
      · rw [Function.update_self]

theorem Invariant.pushWindex (h : Invariant s done) (hstep : step s .pushWindex = some s') :
    Invariant s' done := by
  cases move_of_step hstep with
  | @pushWindex frame hframe =>
    have hwindex := h.windex
    have hroom := h.room
    have hno := h.no
    have hstored := h.stored
    simp only [State.frames, hframe] at hno hstored
    rw [hframe] at hwindex hroom
    refine { h with windex := ?_, room := hroom, writable := nofun, no := hno, stored := hstored }
    show s.f.bump s.f.windex = (s.pushed.length + 1) % s.f.maxSize
    rw [hwindex]
    exact bump_eq h.pos s.pushed.length

theorem Invariant.pushSize (h : Invariant s done) (hstep : step s .pushSize = some s') :
    Invariant s' done := by
  cases move_of_step hstep with
  | @pushSize frame hframe =>
    have hsize := h.size
    have hwindex := h.windex
    have hroom := h.room
    have hno := h.no
    have hstored := h.stored
    simp only [State.frames, hframe] at hno hstored
    rw [hframe] at hwindex hroom
    have hlen : (s.pushed ++ [frame]).length = s.pushed.length + 1 := List.length_append
    refine { h with size := ?_, windex := ?_, room := ?_, writable := nofun, consumer := ?_, no := ?_,
                    stored := ?_, reads_prefix := ?_ }
    · show s.f.size + 1 = (s.pushed ++ [frame]).length - done
      rw [hlen]
      omega
    · show s.f.windex = (s.pushed ++ [frame]).length % s.f.maxSize
      rw [hlen]
      exact hwindex
    · show (s.pushed ++ [frame]).length + 0 ≤ done + s.f.maxSize
      rw [hlen]
      exact hroom
    · have hsound := h.consumer
      show Consumer.Sound _ s.consumer
      cases hconsumer : s.consumer with
      | idle | read => trivial
      | readable slot =>
        rw [hconsumer] at hsound
        exact ⟨hsound.1, hlen ▸ Nat.lt_succ_of_lt hsound.2⟩
      | moved | unrefed =>
        rw [hconsumer] at hsound
        exact hsound
    · intro k x hk
      rw [State.frames, Producer.inFlight, List.append_nil] at hk
      exact hno k x hk
    · intro k x hk hkx
      rw [State.frames, Producer.inFlight, List.append_nil] at hkx
      exact hstored k x hk hkx
    · show s.reads <+: (s.pushed ++ [frame]).map some
      rw [List.map_append]
      exact h.reads_prefix.trans (List.prefix_append _ _)

/-! ## The moves of the consumer -/

theorem Invariant.peekReadable (h : Invariant s done) (hstep : step s .peekReadable = some s') :
    Invariant s' done := by
  cases move_of_step hstep with
  | @peekReadable slot hidle hslot =>
    simp only [Queue.peekReadable, Option.ite_none_left_eq_some] at hslot
    obtain ⟨hsome, hslot⟩ := hslot
    have hsize := h.size
    have hrindex := h.rindex
    have hreads := h.reads
    rw [hidle] at hrindex hreads
    have hreads : s.reads.length = done + s.f.rindexShown := hreads
    refine { h with rindex := hrindex, reads := hreads, consumer := ⟨?_, ?_⟩ }
    · show slot = s.reads.length % s.f.maxSize
      rw [← Option.some.inj hslot, hrindex, hreads, Nat.mod_add_mod]
      rfl
    · show s.reads.length < s.pushed.length
      omega

theorem prefix_concat {α : Type} {l m : List α} {a : α} (h : l <+: m) (ha : m[l.length]? = some a) :
    l ++ [a] <+: m := by
  obtain ⟨t, rfl⟩ := h
  rw [List.getElem?_append_right (Nat.le_refl _), Nat.sub_self] at ha
  cases t with
  | nil => cases ha
  | cons b t =>
    cases ha
    exact ⟨t, by rw [List.append_assoc]; rfl⟩

/-- The consumer reads the first frame that it did not read. -/
theorem Invariant.read (h : Invariant s done) (hstep : step s .read = some s') : Invariant s' done := by
  cases move_of_step hstep with
  | @read slot hslot =>
    have hsound := h.consumer
    have hreads := h.reads
    have hrindex := h.rindex
    rw [hslot] at hsound hreads hrindex
    obtain ⟨rfl, hlt⟩ := hsound
    have hframe : s.frames[s.reads.length]? = some s.pushed[s.reads.length] := by
      rw [State.frames, List.getElem?_append_left hlt, List.getElem?_eq_getElem hlt]
    -- it is still in its slot, since it was not read
    have hread := h.stored _ _ (Nat.le_refl _) hframe
    have hlen : (s.reads ++ [s.f.queue (s.reads.length % s.f.maxSize)]).length = s.reads.length + 1 :=
      List.length_append
    refine { h with rindex := hrindex, reads := ?_, consumer := trivial, stored := ?_,
                    reads_prefix := ?_ }
    · rw [hlen, hreads]
      rfl
    · intro k x hk hkx
      rw [hlen] at hk
      exact h.stored k x (Nat.le_of_succ_le hk) hkx
    · apply prefix_concat h.reads_prefix
      rw [hread, List.getElem?_map, List.getElem?_eq_getElem hlt, Option.map_some]

theorem Invariant.next (h : Invariant s done) (hstep : step s .next = some s') : Invariant s' done := by
  have hshown := h.shown
  have hreads := h.reads
  have hrindex := h.rindex
  cases move_of_step hstep with
  | nextShown hread hfirst =>
    rw [hread] at hreads hrindex
    refine { h with rindex := hrindex, shown := ?_, reads := ?_, consumer := trivial }
    · show 1 ≤ if s.f.keepLast then 1 else 0
      rw [if_pos hfirst.1]
    · rw [hreads, hfirst.2]
      rfl
  | next hread hlater =>
    rw [hread] at hreads hrindex
    refine { h with rindex := ?_, reads := hreads, consumer := ?_ }
    · show s.f.bump s.f.rindex = (done + 1) % s.f.maxSize
      rw [hrindex]
      exact bump_eq h.pos done
    · show s.f.rindexShown = if s.f.keepLast then 1 else 0
      split at hshown
      · next hkeep =>
        rw [if_pos hkeep]
        have hne : s.f.rindexShown ≠ 0 := fun hzero => hlater ⟨hkeep, hzero⟩
        omega
      · next hkeep =>
        rw [if_neg hkeep]
        exact Nat.le_zero.mp hshown

/-- Only a frame that is pushed and not read counts as lost, and its number says which slot it has. -/
theorem Invariant.not_unread {x : Frame φ} (h : Invariant s done)
    (hspare : ∀ k, s.reads.length ≤ k → k < s.frames.length → k % s.f.maxSize ≠ s.f.rindex)
    (hx : s.f.queue s.f.rindex = some x) : ¬s.Unread x := by
  rintro ⟨hpushed, hnot⟩
  obtain ⟨y, hy, hno⟩ := List.mem_map.mp hpushed
  obtain ⟨k, hk, rfl⟩ := List.mem_iff_getElem.mp hy
  have hframe : s.frames[k]? = some s.pushed[k] := by
    rw [State.frames, List.getElem?_append_left hk, List.getElem?_eq_getElem hk]
  have hnok := h.no k _ hframe
  -- the frame was read, or its slot is another one
  rcases Nat.lt_or_ge k s.reads.length with hlt | hge
  · apply hnot
    have hread : s.reads[k] = some s.pushed[k] := by
      rw [h.reads_prefix.getElem hlt, List.getElem_map]
    refine List.mem_map.mpr ⟨_, List.getElem_mem hlt, ?_⟩
    rw [hread, Option.map_some, hno]
  · apply hspare k hge (List.getElem?_eq_some_iff.mp hframe).1
    rw [← h.place _ x hx, ← hno, hnok]

/-- The slot that is unreferenced holds no frame that was not read. -/
theorem Invariant.nextUnref (h : Invariant s done)
    (hspare : ∀ k, s.reads.length ≤ k → k < s.frames.length → k % s.f.maxSize ≠ s.f.rindex)
    (hstep : step s .nextUnref = some s') : Invariant s' done := by
  cases move_of_step hstep with
  | nextUnref hmoved =>
    have hreads := h.reads
    have hrindex := h.rindex
    have hsound := h.consumer
    rw [hmoved] at hreads hrindex hsound
    refine { h with rindex := hrindex, reads := hreads, consumer := hsound, place := ?_, stored := ?_,
                    spared := ?_ }
    · intro i x hx
      have hx : Function.update s.f.queue s.f.rindex none i = some x := hx
      by_cases hi : i = s.f.rindex
      · rw [hi, Function.update_self] at hx
        cases hx
      · rw [Function.update_of_ne hi] at hx
        exact h.place i x hx
    · intro k x hk hkx
      have hlt := (List.getElem?_eq_some_iff.mp hkx).1
      show Function.update s.f.queue s.f.rindex none _ = some x
      rw [Function.update_of_ne (hspare k hk hlt)]
      exact h.stored k x hk hkx
    · show s.lost ++ _ = []
      rw [h.spared, List.nil_append, List.filter_eq_nil_iff]
      intro x hx
      rw [Option.mem_toList] at hx
      rw [decide_eq_true_eq]
      exact h.not_unread hspare hx

theorem Invariant.nextSize (h : Invariant s done) (hstep : step s .nextSize = some s') :
    Invariant s' (done + 1) := by
  cases move_of_step hstep with
  | nextSize hunrefed =>
    have hsize := h.size
    have hreads := h.reads
    have hrindex := h.rindex
    have hroom := h.room
    rw [hunrefed] at hreads hrindex
    refine { h with size := ?_, rindex := hrindex, reads := ?_, room := ?_, consumer := trivial }
    · show s.f.size - 1 = s.pushed.length - (done + 1 : Nat)
      omega
    · show s.reads.length = done + 1 + s.f.rindexShown + 0
      rw [hreads]
      show done + s.f.rindexShown + 1 = _
      omega
    · show s.pushed.length + s.producer.claimed ≤ done + 1 + s.f.maxSize
      omega

/-! ## Every run -/

/-- The producer is between its fill and the end of its push. -/
def Producer.Between : Producer φ → Prop
  | .idle | .writable _ => False
  | .filled _ | .moved _ => True

instance Producer.Between.decidable : (p : Producer φ) → Decidable p.Between
  | .idle | .writable _ => isFalse id
  | .filled _ | .moved _ => isTrue trivial

/-- The slot after the one that was read holds nothing: there is only one slot, or only one frame. -/
def State.Alone (s : State φ) : Prop := s.f.maxSize = 1 ∨ s.f.size = 1 ∧ ¬s.producer.Between

instance (s : State φ) : Decidable s.Alone := inferInstanceAs (Decidable (_ ∨ _))

/-- `frame_queue_next` gets as far as its `av_frame_unref` without `keep_last` only, and only when the slot it has
moved on to holds no frame. -/
def Spares (s : State φ) : Act φ → Prop
  | .nextUnref => s.f.keepLast = false ∧ s.Alone
  | _ => True

instance Spares.decidable (s : State φ) (a : Act φ) : Decidable (Spares s a) := by
  cases a <;> unfold Spares <;> infer_instance

/-- The frames that were not read are in other slots than the one that `frame_queue_next` has moved on to. -/
theorem Invariant.spare (h : Invariant s done) (hmoved : s.consumer = .moved)
    (hok : s.f.keepLast = true ∨ s.Alone) :
    ∀ k, s.reads.length ≤ k → k < s.frames.length → k % s.f.maxSize ≠ s.f.rindex := by
  intro k hk hlt
  have hreads := h.reads
  have hrindex := h.rindex
  have hsound := h.consumer
  have hroom := h.room
  have hsize := h.size
  have hframes := length_frames_le s
  rw [hmoved] at hreads hrindex hsound
  have hreads : s.reads.length = done + s.f.rindexShown + 1 := hreads
  have hsound : s.f.rindexShown = if s.f.keepLast then 1 else 0 := hsound
  rw [hrindex]
  by_cases hkeep : s.f.keepLast = true
  · -- the frame that was read is in the slot, and the next one to read behind it
    rw [if_pos hkeep] at hsound
    have hne : (done + 1) % s.f.maxSize ≠ k % s.f.maxSize := slot_ne (by omega) (by omega)
    exact hne.symm
  · -- there is no frame to read
    exfalso
    rcases hok.resolve_left hkeep with hone | ⟨hone, hidle⟩
    · omega
    · have hflight : s.frames.length = s.pushed.length := by
        rw [State.frames]
        cases hproducer : s.producer with
        | idle | writable => rw [Producer.inFlight, List.append_nil]
        | filled | moved => exact absurd (by rw [hproducer]; trivial) hidle
      omega

/-- One move. With `keep_last` every move keeps the invariant. -/
theorem Invariant.step {a : Act φ} (h : Invariant s done)
    (hok : a = .nextUnref → s.f.keepLast = true ∨ s.Alone) (hstep : step s a = some s') :
    Invariant s' done ∨ a = .nextSize ∧ Invariant s' (done + 1) := by
  cases a with
  | peekWritable => exact .inl (h.peekWritable hstep)
  | fill data => exact .inl (h.fill hstep)
  | pushWindex => exact .inl (h.pushWindex hstep)
  | pushSize => exact .inl (h.pushSize hstep)
  | peekReadable => exact .inl (h.peekReadable hstep)
  | read => exact .inl (h.read hstep)
  | next => exact .inl (h.next hstep)
  | nextUnref =>
    have hmoved : s.consumer = .moved := by
      cases move_of_step hstep with
      | nextUnref hmoved => exact hmoved
    exact .inl (h.nextUnref (h.spare hmoved (hok rfl)) hstep)
  | nextSize => exact .inr ⟨rfl, h.nextSize hstep⟩

/-- The frame that `frame_queue_peek_last` shows: with `keep_last`, while nothing is unreferenced, the first frame
stays in the first slot. -/
structure Held (s : State φ) : Prop where
  size : s.f.size = s.pushed.length
  consumer : s.consumer ≠ .unrefed
  first : ∀ x, s.frames[0]? = some x → s.f.queue 0 = some x

theorem Held.step {a : Act φ} (hheld : Held s) (h : Invariant s 0) (ha : a ≠ .nextUnref)
    (hstep : step s a = some s') : Held s' := by
  obtain ⟨hsize, hconsumer, hfirst⟩ := hheld
  cases move_of_step hstep with
  | peekWritable hidle =>
    rw [State.frames, hidle] at hfirst
    exact ⟨hsize, hconsumer, hfirst⟩
  | @fill _ slot hslot =>
    obtain rfl := h.writable slot hslot
    have hroom := h.room
    rw [hslot] at hroom
    have hroom : s.pushed.length + 1 ≤ 0 + s.f.maxSize := hroom
    rw [State.frames, hslot, Producer.inFlight, List.append_nil] at hfirst
    -- no frame is done with, so the ring has not come round to the first slot
    refine ⟨hsize, hconsumer, fun x hx => ?_⟩
    show Function.update s.f.queue (s.pushed.length % s.f.maxSize) _ 0 = some x
    rw [Nat.mod_eq_of_lt (by omega)]
    rcases getElem?_concat_or hx with hx | ⟨hzero, rfl⟩
    · have hpos : 0 < s.pushed.length := (List.getElem?_eq_some_iff.mp hx).1
      rw [Function.update_of_ne (Nat.ne_of_lt hpos)]
      exact hfirst x hx
    · rw [← hzero, Function.update_self]
  | pushWindex hframe =>
    rw [State.frames, hframe] at hfirst
    exact ⟨hsize, hconsumer, hfirst⟩
  | @pushSize frame hframe =>
    rw [State.frames, hframe] at hfirst
    refine ⟨?_, hconsumer, fun x hx => ?_⟩
    · show s.f.size + 1 = (s.pushed ++ [frame]).length
      rw [hsize, List.length_append]
      rfl
    · rw [State.frames, Producer.inFlight, List.append_nil] at hx
      exact hfirst x hx
  | peekReadable | read | nextShown | next => exact ⟨hsize, nofun, hfirst⟩
  | nextUnref => exact absurd rfl ha
  | nextSize hunrefed => exact absurd hunrefed hconsumer

/-- `keep_last` is set once. -/
theorem step_keepLast {a : Act φ} (hstep : step s a = some s') : s'.f.keepLast = s.f.keepLast := by
  cases move_of_step hstep <;> rfl

/-- What the queue owes the consumer: it reads the frames pushed, in their order, none of them was unreferenced
before, and between its calls `frame_queue_peek_last` shows the frame read last. -/
structure Delivers (s : State φ) : Prop where
  reads_prefix : s.reads <+: s.pushed.map some
  spared : s.lost = []
  peekLast : s.f.keepLast = true → s.consumer = .idle → s.reads ≠ [] →
    ∃ x, s.reads.getLast? = some (some x) ∧ s.f.peekLast = some x

/-- With `keep_last`, and nothing unreferenced, there is at most one frame read. -/
theorem Invariant.peekLast (h : Invariant s 0) (hheld : Held s) (hkeep : s.f.keepLast = true)
    (hidle : s.consumer = .idle) (hne : s.reads ≠ []) :
    ∃ x, s.reads.getLast? = some (some x) ∧ s.f.peekLast = some x := by
  have hlen := h.reads
  have hrindex := h.rindex
  have hshown := h.shown
  have hpos := List.length_pos_of_ne_nil hne
  rw [if_pos hkeep] at hshown
  rw [hidle] at hlen hrindex
  have hlen : s.reads.length = 0 + s.f.rindexShown := hlen
  have hrindex : s.f.rindex = 0 := hrindex.trans (Nat.zero_mod _)
  -- `rindex_shown` is at most 1 and nothing is done with
  obtain ⟨r, hr⟩ := List.length_eq_one_iff.mp (show s.reads.length = 1 by omega)
  have hprefix := h.reads_prefix
  rw [hr] at hprefix ⊢
  cases hpushed : s.pushed with
  | nil =>
    rw [hpushed] at hprefix
    exact absurd hprefix.length_le (by simp)
  | cons x rest =>
    rw [hpushed, List.map_cons, List.cons_prefix_cons] at hprefix
    obtain ⟨rfl, -⟩ := hprefix
    refine ⟨x, rfl, ?_⟩
    rw [Queue.peekLast, hrindex]
    apply hheld.first
    rw [State.frames, hpushed]
    rfl

/-- What holds in a run that spares every frame. -/
def Spared (s : State φ) : Prop :=
  ∃ done, Invariant s done ∧ (s.f.keepLast = true → done = 0 ∧ Held s)

theorem Spared.step {a : Act φ} (h : Spared s) (hok : Spares s a) (hstep : step s a = some s') :
    Spared s' := by
  obtain ⟨done, hinv, hheld⟩ := h
  have hkeepLast := step_keepLast hstep
  have hunref : a = .nextUnref → s.f.keepLast = false ∧ s.Alone := by
    rintro rfl
    exact hok
  rcases hinv.step (fun ha => .inr (hunref ha).2) hstep with hinv' | ⟨rfl, hinv'⟩
  · refine ⟨done, hinv', fun hkeep => ?_⟩
    rw [hkeepLast] at hkeep
    obtain ⟨rfl, hfirst⟩ := hheld hkeep
    have ha : a ≠ .nextUnref := fun heq => by simp [(hunref heq).1] at hkeep
    exact ⟨rfl, hfirst.step hinv ha hstep⟩
  · refine ⟨done + 1, hinv', fun hkeep => ?_⟩
    rw [hkeepLast] at hkeep
    -- with `keep_last` nothing is unreferenced, so nothing is done with
    cases move_of_step hstep with
    | nextSize hunrefed => exact absurd hunrefed (hheld hkeep).2.consumer

/-- **While `frame_queue_next` unreferences empty slots only, the queue delivers every frame.** -/
theorem delivers_of_spares {maxSize : Nat} {keepLast : Bool} {acts : List (Act φ)} (hmax : 1 ≤ maxSize)
    (hok : Meets step Spares (State.init maxSize keepLast) acts)
    (hrun : run step (State.init maxSize keepLast) acts = some s) : Delivers s := by
  have hinit : Spared (State.init maxSize keepLast : State φ) :=
    ⟨0, invariant_init hmax keepLast, fun _ => ⟨rfl, rfl, nofun, nofun⟩⟩
  obtain ⟨done, hinv, hheld⟩ := run_invariant (fun _ _ _ h => h.step) hinit hok hrun
  refine ⟨hinv.reads_prefix, hinv.spared, fun hkeep hidle hne => ?_⟩
  obtain ⟨rfl, hfirst⟩ := hheld hkeep
  exact hinv.peekLast hfirst hkeep hidle hne

/-- The producer puts a frame into the queue. -/
def pushOf (data : φ) : List (Act φ) := [.peekWritable, .fill data, .pushWindex, .pushSize]

/-- The consumer takes one out. -/
def readOf : List (Act φ) := [.peekReadable, .read, .next, .nextUnref, .nextSize]

/-- A frame goes through a queue of two slots that is empty otherwise. -/
theorem delivers_of_spares_one :
    ∃ s, run step (State.init 2 false) (pushOf 10 ++ readOf) = some s ∧ s.reads = [some ⟨0, 10⟩] ∧
      Delivers s := by
  have hok : Meets step Spares (State.init 2 false) (pushOf 10 ++ readOf) := by decide
  exact ⟨_, rfl, rfl, delivers_of_spares (Nat.le_succ 1) hok rfl⟩

/-- With two frames in the queue the second one is unreferenced when the first one was read, and is read as a frame
without data. With `keep_last` it is the frame read last that is unreferenced. -/
theorem next_unrefs_second :
    (∃ s, run step (State.init 2 false) (pushOf 10 ++ pushOf 11 ++ readOf ++ [.peekReadable, .read]) =
        some s ∧ s.pushed = [⟨0, 10⟩, ⟨1, 11⟩] ∧ s.reads = [some ⟨0, 10⟩, none] ∧
        s.lost = [⟨1, 11⟩] ∧ ¬Delivers s) ∧
      ∃ s, run step (State.init 2 true)
          (pushOf 10 ++ pushOf 11 ++ [.peekReadable, .read, .next] ++ readOf) = some s ∧
        s.reads = [some ⟨0, 10⟩, some ⟨1, 11⟩] ∧ s.f.peekLast = none ∧ ¬Delivers s := by
  refine ⟨⟨_, rfl, rfl, rfl, rfl, fun h => ?_⟩, ⟨_, rfl, rfl, rfl, fun h => ?_⟩⟩
  · exact List.cons_ne_nil _ _ h.spared
  · obtain ⟨x, -, hx⟩ := h.peekLast rfl rfl (List.cons_ne_nil _ _)
    cases hx

/-- With `keep_last` the frames arrive in every run, and only `frame_queue_peek_last` finds its frame gone. -/
theorem arrives_of_keepLast {maxSize : Nat} {acts : List (Act φ)} (hmax : 1 ≤ maxSize)
    (hrun : run step (State.init maxSize true) acts = some s) :
    s.reads <+: s.pushed.map some ∧ s.lost = [] := by
  have hstep (s : State φ) (a : Act φ) (s' : State φ) (h : ∃ done, Invariant s done ∧ s.f.keepLast = true)
      (_ : True) (hs : step s a = some s') : ∃ done, Invariant s' done ∧ s'.f.keepLast = true := by
    obtain ⟨done, hinv, hkeep⟩ := h
    have hkeep' := (step_keepLast hs).trans hkeep
    rcases hinv.step (fun _ => .inl hkeep) hs with hinv' | ⟨-, hinv'⟩
    · exact ⟨done, hinv', hkeep'⟩
    · exact ⟨done + 1, hinv', hkeep'⟩
  obtain ⟨done, hinv, -⟩ := run_invariant hstep ⟨0, invariant_init hmax true, rfl⟩
    (Meets.of_forall (fun _ _ => trivial) _ _) hrun
  exact ⟨hinv.reads_prefix, hinv.spared⟩

end ProgrammingPath.FrameQueue
