import ProgrammingPath.Lib.Run
import ProgrammingPath.Mqtt.Session

/-!
# The output queue of a session

Packets are pushed at any time, and whenever the socket is writable a piece of the first one is
sent. `Fifo` says what the queue is for: packets wait in the order they were pushed, and only the
first of them can be partly sent. `Represents` ties a list of waiting packets to the chain of cells
behind the three pointers of a session, and every event of the session simulates one of the `Fifo`
(`step_push`, `step_epollout`). What the socket has taken, and when the queue is empty, is then read
off the `Fifo`.
-/

namespace ProgrammingPath.Mqtt

open ProgrammingPath.Lib

/-! ## What the queue is for -/

/-- Packets that wait to be sent, each with the number of its bytes that are already sent; the bytes
sent so far; and the packets that were sent to the end. -/
structure Fifo where
  waiting : List (List UInt8 × Nat)
  accepted : List UInt8
  reported : List (List UInt8)

namespace Fifo

def empty : Fifo := ⟨[], [], []⟩

def push (f : Fifo) (packet : List UInt8) : Fifo :=
  { f with waiting := f.waiting ++ [(packet, 0)] }

/-- Send up to `n` more bytes of the first packet. -/
def send (f : Fifo) (n : Nat) : Fifo :=
  match f.waiting with
  | [] => f
  | (packet, pos) :: rest =>
    let taken := (packet.drop pos).take n
    if packet.length ≤ pos + taken.length then
      ⟨rest, f.accepted ++ taken, f.reported ++ [packet]⟩
    else
      ⟨(packet, pos + taken.length) :: rest, f.accepted ++ taken, f.reported⟩

/-- What is already sent of the first packet. -/
def partSent : List (List UInt8 × Nat) → List UInt8
  | [] => []
  | (packet, pos) :: _ => packet.take pos

/-- `all` are the packets pushed so far: those that were reported and those that wait. -/
structure Sound (f : Fifo) (all : List (List UInt8)) : Prop where
  left : ∀ w ∈ f.waiting, w.2 < w.1.length
  untouched : ∀ w ∈ f.waiting.tail, w.2 = 0
  all_eq : f.reported ++ f.waiting.map Prod.fst = all
  accepted_eq : f.accepted = f.reported.flatten ++ partSent f.waiting

variable {f : Fifo} {all : List (List UInt8)}

/-- Sending while a packet waits. -/
theorem send_of_waiting {packet : List UInt8} {pos : Nat} {rest : List (List UInt8 × Nat)}
    (hwait : f.waiting = (packet, pos) :: rest) (n : Nat) :
    f.send n =
      if packet.length ≤ pos + ((packet.drop pos).take n).length then
        ⟨rest, f.accepted ++ (packet.drop pos).take n, f.reported ++ [packet]⟩
      else
        ⟨(packet, pos + ((packet.drop pos).take n).length) :: rest,
          f.accepted ++ (packet.drop pos).take n, f.reported⟩ := by
  simp only [send, hwait]

theorem sound_empty : empty.Sound [] := ⟨by simp [empty], by simp [empty], rfl, rfl⟩

theorem Sound.push (h : f.Sound all) (packet : Message) :
    (f.push packet.1).Sound (all ++ [packet.1]) where
  left := by
    intro w hw
    rcases List.mem_append.mp hw with hw | hw
    · exact h.left w hw
    · rw [List.mem_singleton.mp hw]
      exact List.length_pos_iff.mpr packet.2
  untouched := by
    intro w hw
    cases hwait : f.waiting with
    | nil => simp [Fifo.push, hwait] at hw
    | cons v rest =>
      rw [Fifo.push, hwait, List.cons_append, List.tail_cons] at hw
      rcases List.mem_append.mp hw with hw | hw
      · exact h.untouched w (by rwa [hwait, List.tail_cons])
      · rw [List.mem_singleton.mp hw]
  all_eq := by
    rw [← h.all_eq]
    simp [Fifo.push]
  accepted_eq := by
    show f.accepted = f.reported.flatten ++ partSent (f.waiting ++ [(packet.1, 0)])
    rw [h.accepted_eq]
    cases f.waiting with
    | nil => rfl
    | cons v rest => rfl

theorem Sound.send (h : f.Sound all) (n : Nat) : (f.send n).Sound all := by
  cases hwait : f.waiting with
  | nil =>
    rw [Fifo.send, hwait]
    exact h
  | cons v rest =>
    obtain ⟨packet, pos⟩ := v
    have hpos : pos < packet.length := h.left (packet, pos) (by rw [hwait]; exact List.mem_cons_self)
    have hrest : ∀ w ∈ rest, w.2 = 0 := fun w hw =>
      h.untouched w (by rwa [hwait, List.tail_cons])
    have hleft : ∀ w ∈ rest, w.2 < w.1.length := fun w hw =>
      h.left w (by rw [hwait]; exact List.mem_cons_of_mem _ hw)
    have hall := h.all_eq
    have hacc := h.accepted_eq
    rw [hwait, List.map_cons] at hall
    rw [hwait, partSent] at hacc
    -- the bytes taken continue those of the first packet that were taken before
    have htake : packet.take pos ++ (packet.drop pos).take n = packet.take (pos + n) :=
      List.take_add.symm
    rw [send_of_waiting hwait]
    by_cases hend : packet.length ≤ pos + ((packet.drop pos).take n).length
    · rw [if_pos hend]
      rw [List.length_take, List.length_drop] at hend
      refine ⟨hleft, fun w hw => hrest w (List.mem_of_mem_tail hw), ?_, ?_⟩
      · rw [← hall, List.append_assoc, List.singleton_append]
      · have hnone : partSent rest = [] := by
          cases rest with
          | nil => rfl
          | cons w rest => rw [partSent, hrest w List.mem_cons_self, List.take_zero]
        show f.accepted ++ (packet.drop pos).take n = (f.reported ++ [packet]).flatten ++ partSent rest
        rw [hacc, List.append_assoc, htake, List.take_of_length_le (by omega), hnone,
          List.flatten_append, List.flatten_singleton, List.append_nil]
    · rw [if_neg hend]
      rw [List.length_take, List.length_drop] at hend
      have hlen : ((packet.drop pos).take n).length = n := by
        rw [List.length_take, List.length_drop]
        omega
      refine ⟨?_, hrest, hall, ?_⟩
      · intro w hw
        rcases List.mem_cons.mp hw with rfl | hw
        · show pos + ((packet.drop pos).take n).length < packet.length
          omega
        · exact hleft w hw
      · show f.accepted ++ (packet.drop pos).take n =
          f.reported.flatten ++ packet.take (pos + ((packet.drop pos).take n).length)
        rw [hacc, List.append_assoc, htake, hlen]

/-- The bytes sent are a beginning of those that were pushed. -/
theorem Sound.accepted_isPrefix (h : f.Sound all) : f.accepted <+: all.flatten := by
  rw [h.accepted_eq, ← h.all_eq, List.flatten_append]
  apply (List.prefix_append_right_inj _).mpr
  cases f.waiting with
  | nil => exact List.nil_prefix
  | cons w rest =>
    rw [List.map_cons, List.flatten_cons]
    exact (List.take_prefix _ _).trans (List.prefix_append _ _)

/-- Everything is sent exactly when no packet waits. -/
theorem Sound.accepted_eq_flatten_iff (h : f.Sound all) :
    f.accepted = all.flatten ↔ f.waiting = [] := by
  rw [h.accepted_eq, ← h.all_eq, List.flatten_append, List.append_cancel_left_eq]
  cases hwait : f.waiting with
  | nil => simp [partSent]
  | cons w rest =>
    refine ⟨fun heq => ?_, fun hnil => by cases hnil⟩
    -- the first packet has bytes left
    have hleft := h.left w (by rw [hwait]; exact List.mem_cons_self)
    have hlen := congrArg List.length heq
    rw [partSent, List.length_take, List.map_cons, List.flatten_cons, List.length_append] at hlen
    omega

end Fifo

/-! ## The chain behind the three pointers -/

/-- The output queue of a session is the chain `l`, and these are the packets on it. -/
structure Represents (s : Session) (waiting : List (List UInt8 × Nat)) (l : List (Nat × OutPacket)) :
    Prop where
  linked : Linked OutPacket.next s.heap s.outpacket l
  last : l ≠ [] → s.outpacketLast = (l.map Prod.fst).getLast?
  curr : s.currOutPacket = none ∨ s.currOutPacket = s.outpacket
  cells : l.map (fun c => (c.2.data, c.2.pos)) = waiting
  interest : s.interest = .input ↔ l = []

variable {s t : Session} {waiting : List (List UInt8 × Nat)} {l : List (Nat × OutPacket)}

theorem represents_accepted (now : Int) : Represents (Session.accepted now) [] [] :=
  ⟨rfl, fun h => absurd rfl h, Or.inl rfl, rfl, by simp [Session.accepted]⟩

/-- A packet pushed on an empty queue is its first and its last one. -/
theorem push_of_nil (h : Represents s waiting []) (packet : Message) :
    ∃ t, mqttSessionPushPacket s packet true = some t ∧
      Represents t (waiting ++ [(packet.1, 0)]) [(s.heap.brk, ⟨none, packet.1, 0⟩)] := by
  have hout : s.outpacket = none := h.linked
  refine ⟨{ s with
    heap := s.heap.malloc ⟨none, packet.1, 0⟩, outpacket := some s.heap.brk
    outpacketLast := some s.heap.brk, interest := .output }, ?_, ?_⟩
  · simp only [mqttSessionPushPacket, if_true, hout]
  · refine ⟨⟨rfl, Heap.cell_malloc_self _, rfl⟩, fun _ => rfl, Or.inl ?_, ?_, by simp⟩
    · rcases h.curr with hc | hc
      · exact hc
      · exact hc.trans hout
    · rw [← h.cells]
      rfl

/-- Otherwise it is hung behind the last one. -/
theorem push_of_append {c : Nat × OutPacket} (h : Represents s waiting (l ++ [c]))
    (packet : Message) :
    ∃ t, mqttSessionPushPacket s packet true = some t ∧
      Represents t (waiting ++ [(packet.1, 0)])
        (l ++ [(c.1, { c.2 with next := some s.heap.brk }), (s.heap.brk, ⟨none, packet.1, 0⟩)]) := by
  have hcell : s.heap.cell c.1 = some c.2 := h.linked.cell_of_mem (by simp)
  have hne : c.1 ≠ s.heap.brk := (s.heap.lt_brk_of_cell hcell).ne
  have hlast : s.outpacketLast = some c.1 := by
    rw [h.last (by simp), List.map_append]
    exact List.getLast?_concat
  have hout : ∃ first, s.outpacket = some first := by
    cases l with
    | nil => exact ⟨_, h.linked.1⟩
    | cons d l => exact ⟨_, h.linked.1⟩
  obtain ⟨first, hout⟩ := hout
  refine ⟨{ s with
    heap := (s.heap.malloc ⟨none, packet.1, 0⟩).modify c.1 fun n =>
      { n with next := some s.heap.brk }
    outpacketLast := some s.heap.brk, interest := .output }, ?_, ?_⟩
  · simp only [mqttSessionPushPacket, if_true, hout, hlast, Option.bind_eq_bind, Option.bind_some,
      Heap.cell_malloc_of_ne _ hne, hcell]
  · refine ⟨Linked.snoc h.linked rfl rfl, fun _ => ?_, h.curr, ?_, by simp⟩
    · simp
    · rw [← h.cells]
      simp

theorem push_represents (h : Represents s waiting l) (packet : Message) :
    ∃ t l', mqttSessionPushPacket s packet true = some t ∧
      Represents t (waiting ++ [(packet.1, 0)]) l' := by
  obtain rfl | ⟨l, c, rfl⟩ := List.eq_nil_or_concat' l
  · obtain ⟨t, ht, hrep⟩ := push_of_nil h packet
    exact ⟨t, _, ht, hrep⟩
  · obtain ⟨t, ht, hrep⟩ := push_of_append h packet
    exact ⟨t, _, ht, hrep⟩

/-! ## Sending -/

/-- A writable socket is given the first packet of the queue. -/
theorem onWritable_of_represents {c : Nat × OutPacket} {now : Int} {r : SendResult} {p : PushMsg}
    (h : Represents s waiting (c :: l))
    (hp : clientPushMsg { s with lastTime := now, currOutPacket := some c.1 } r = some p)
    (hret : p.ret = 0) :
    onWritable s now r = some (if p.session.outpacket = none then
      { p with session := { p.session with interest := .input } } else p) := by
  have hout : s.outpacket = some c.1 := h.linked.1
  have hcurr : (s.currOutPacket <|> s.outpacket) = some c.1 := by
    rcases h.curr with hc | hc
    · rw [hc, hout]
      rfl
    · rw [hc, hout]
      rfl
  rw [onWritable, hcurr, hp, Option.bind_eq_bind, Option.bind_some]
  by_cases hnone : p.session.outpacket = none
  · rw [if_pos ⟨hret, hnone⟩, if_pos hnone]
  · rw [if_neg (fun h => hnone h.2), if_neg hnone]

/-- A full socket leaves the queue as it is. -/
theorem onWritable_again (h : Represents s waiting l) (hl : l ≠ []) (now : Int) :
    ∃ t, onWritable s now .again = some ⟨0, t, [], []⟩ ∧ Represents t waiting l := by
  obtain ⟨c, l, rfl⟩ := List.exists_cons_of_ne_nil hl
  have hout : s.outpacket = some c.1 := h.linked.1
  refine ⟨{ s with lastTime := now, currOutPacket := some c.1 }, ?_, ?_⟩
  · have hpush : clientPushMsg { s with lastTime := now, currOutPacket := some c.1 } .again =
        some ⟨0, { s with lastTime := now, currOutPacket := some c.1 }, [], []⟩ := by
      simp only [clientPushMsg, h.linked.2.1, Option.bind_eq_bind, Option.bind_some]
    rw [onWritable_of_represents h hpush rfl, if_neg (by rw [hout]; simp)]
  · exact ⟨h.linked, h.last, Or.inr hout.symm, h.cells, h.interest⟩

/-- A socket that takes something of the bytes that are left takes at least one of them. -/
theorem taken_ne_nil {data : List UInt8} {pos n : Nat} (hleft : pos < data.length) :
    (data.drop pos).take (n + 1) ≠ [] := by
  rw [ne_eq, List.take_eq_nil_iff, List.drop_eq_nil_iff]
  omega

/-- The socket takes the last bytes of the first packet: the cell is given back, and the queue that
is left decides what the socket is registered for. -/
theorem onWritable_end {c : Nat × OutPacket} {n : Nat} (h : Represents s waiting (c :: l))
    (hleft : c.2.pos < c.2.data.length)
    (hend : c.2.data.length ≤ c.2.pos + ((c.2.data.drop c.2.pos).take (n + 1)).length) (now : Int) :
    ∃ t, onWritable s now (.sent n) =
        some ⟨0, t, (c.2.data.drop c.2.pos).take (n + 1), [c.2.data]⟩ ∧
      Represents t waiting.tail l := by
  have hout : s.outpacket = some c.1 := h.linked.1
  have hcell : s.heap.cell c.1 = some c.2 := h.linked.2.1
  have hpop : Linked OutPacket.next (s.heap.free c.1) c.2.next l := h.linked.pop
  have htaken := taken_ne_nil (n := n) hleft
  have hpush : clientPushMsg { s with lastTime := now, currOutPacket := some c.1 } (.sent n) =
      some ⟨0, { s with
        lastTime := now, outpacket := c.2.next, heap := s.heap.free c.1, currOutPacket := none },
        (c.2.data.drop c.2.pos).take (n + 1), [c.2.data]⟩ := by
    simp only [clientPushMsg, hcell, Option.bind_eq_bind, Option.bind_some, if_neg htaken,
      if_pos hend, hout]
  have hcells := h.cells
  rw [List.map_cons] at hcells
  have hlast : l ≠ [] → s.outpacketLast = (l.map Prod.fst).getLast? := by
    intro hl
    rw [h.last (by simp), List.map_cons]
    obtain ⟨d, l, rfl⟩ := List.exists_cons_of_ne_nil hl
    rfl
  have hinput : s.interest ≠ .input := fun hi => by cases h.interest.mp hi
  cases l with
  | nil =>
    have hnext : c.2.next = none := hpop
    refine ⟨{ s with
      lastTime := now, outpacket := c.2.next, heap := s.heap.free c.1, currOutPacket := none
      interest := .input }, ?_, ?_⟩
    · rw [onWritable_of_represents h hpush rfl, if_pos hnext]
    · exact ⟨hpop, hlast, Or.inl rfl, by rw [← hcells]; rfl, by simp⟩
  | cons d l =>
    have hnext : c.2.next = some d.1 := hpop.1
    refine ⟨{ s with
      lastTime := now, outpacket := c.2.next, heap := s.heap.free c.1, currOutPacket := none },
      ?_, ?_⟩
    · rw [onWritable_of_represents h hpush rfl, if_neg (by rw [hnext]; simp)]
    · exact ⟨hpop, hlast, Or.inl rfl, by rw [← hcells]; rfl, by simp [hinput]⟩

/-- The socket takes some bytes of the first packet and leaves others. -/
theorem onWritable_part {c : Nat × OutPacket} {n : Nat} (h : Represents s waiting (c :: l))
    (hend : ¬c.2.data.length ≤ c.2.pos + ((c.2.data.drop c.2.pos).take (n + 1)).length)
    (now : Int) :
    ∃ t l', onWritable s now (.sent n) = some ⟨0, t, (c.2.data.drop c.2.pos).take (n + 1), []⟩ ∧
      Represents t ((c.2.data, c.2.pos + ((c.2.data.drop c.2.pos).take (n + 1)).length) ::
        waiting.tail) l' := by
  have hout : s.outpacket = some c.1 := h.linked.1
  have hcell : s.heap.cell c.1 = some c.2 := h.linked.2.1
  have htaken := taken_ne_nil (n := n) (show c.2.pos < c.2.data.length by omega)
  have hpush : clientPushMsg { s with lastTime := now, currOutPacket := some c.1 } (.sent n) =
      some ⟨0, { s with
        lastTime := now, currOutPacket := some c.1
        heap := s.heap.modify c.1 fun m =>
          { m with pos := c.2.pos + ((c.2.data.drop c.2.pos).take (n + 1)).length } },
        (c.2.data.drop c.2.pos).take (n + 1), []⟩ := by
    simp only [clientPushMsg, hcell, Option.bind_eq_bind, Option.bind_some, if_neg htaken,
      if_neg hend]
  refine ⟨{ s with
    lastTime := now, currOutPacket := some c.1
    heap := s.heap.modify c.1 fun m =>
      { m with pos := c.2.pos + ((c.2.data.drop c.2.pos).take (n + 1)).length } },
    (c.1, { c.2 with pos := c.2.pos + ((c.2.data.drop c.2.pos).take (n + 1)).length }) :: l,
    ?_, ?_⟩
  · rw [onWritable_of_represents h hpush rfl, if_neg (by rw [hout]; simp)]
  · refine ⟨h.linked.modify_head rfl, ?_, Or.inr hout.symm, ?_, ?_⟩
    · intro _
      exact h.last (by simp)
    · rw [← h.cells]
      rfl
    · simpa using h.interest

/-! ## Runs of a session -/

/-- A session, the bytes its socket has taken and the packets that were reported as sent. -/
structure Out where
  session : Session
  accepted : List UInt8
  reported : List (List UInt8)

/-- A session that was just accepted. -/
def Out.init (now : Int) : Out := ⟨Session.accepted now, [], []⟩

/-- What can happen to the output queue. A writable socket takes `n + 1` bytes (or all of the packet
that are left), or it is full again. -/
inductive OutEvent
  | push (packet : Message) (alloc : Bool)
  | epollout (now : Int) (taken : Option Nat)

/-- What `send` returns on such a socket. -/
def sendResult : Option Nat → SendResult
  | some n => .sent n
  | none => .again

/-- `EPOLLOUT` is reported for a socket that is registered for it. A failing `client_push_msg` would
end the session. -/
def Out.step (s : Out) : OutEvent → Option Out
  | .push packet alloc =>
    (mqttSessionPushPacket s.session packet alloc).map fun t => { s with session := t }
  | .epollout now taken =>
    if s.session.interest = .output then do
      let p ← onWritable s.session now (sendResult taken)
      if p.ret = 0 then
        some ⟨p.session, s.accepted ++ p.taken, s.reported ++ p.reported⟩
      else
        none
    else
      none

/-- The packets that were pushed, oldest first. -/
def pushed : List OutEvent → List (List UInt8)
  | [] => []
  | .push packet true :: evs => packet.1 :: pushed evs
  | _ :: evs => pushed evs

/-- The session does what the `Fifo` says. -/
def Refines (s : Out) (f : Fifo) : Prop :=
  (∃ l, Represents s.session f.waiting l) ∧ s.accepted = f.accepted ∧ s.reported = f.reported

theorem refines_init (now : Int) : Refines (Out.init now) Fifo.empty :=
  ⟨⟨[], represents_accepted now⟩, rfl, rfl⟩

section Step

variable {s t : Out} {f : Fifo} {all : List (List UInt8)}

/-- The socket is registered for reading exactly when nothing waits. -/
theorem Refines.interest (h : Refines s f) : s.session.interest = .input ↔ f.waiting = [] := by
  obtain ⟨⟨l, hl⟩, -, -⟩ := h
  rw [hl.interest, ← hl.cells, List.map_eq_nil_iff]

theorem step_push (h : Refines s f) (packet : Message) :
    ∃ t, s.step (.push packet true) = some t ∧ Refines t (f.push packet.1) := by
  obtain ⟨⟨l, hl⟩, hacc, hrep⟩ := h
  obtain ⟨t, l', ht, hl'⟩ := push_represents hl packet
  refine ⟨{ s with session := t }, ?_, ⟨l', hl'⟩, hacc, hrep⟩
  rw [Out.step, ht, Option.map_some]

theorem step_push_failed (packet : Message) : s.step (.push packet false) = some s := rfl

/-- What a writable socket makes of the waiting packets. -/
def Fifo.writable (f : Fifo) : Option Nat → Fifo
  | some n => f.send (n + 1)
  | none => f

theorem step_epollout (h : Refines s f) (hf : f.Sound all) (hout : s.session.interest = .output)
    (now : Int) (taken : Option Nat) :
    ∃ t, s.step (.epollout now taken) = some t ∧ Refines t (f.writable taken) := by
  have hwait : f.waiting ≠ [] := by
    rw [ne_eq, ← h.interest, hout]
    simp
  obtain ⟨⟨l, hl⟩, hacc, hrep⟩ := h
  have hne : l ≠ [] := by
    rintro rfl
    exact hwait hl.cells.symm
  simp only [Out.step, if_pos hout]
  cases taken with
  | none =>
    obtain ⟨t, ht, hl'⟩ := onWritable_again hl hne now
    refine ⟨⟨t, s.accepted, s.reported⟩, ?_, ⟨l, hl'⟩, hacc, hrep⟩
    rw [sendResult, ht]
    simp
  | some n =>
    obtain ⟨c, l, rfl⟩ := List.exists_cons_of_ne_nil hne
    have hcells : f.waiting = (c.2.data, c.2.pos) :: f.waiting.tail := by
      rw [← hl.cells]
      rfl
    have hleft := hf.left _ (hcells ▸ List.mem_cons_self)
    rw [Fifo.writable, Fifo.send_of_waiting hcells]
    by_cases hend : c.2.data.length ≤ c.2.pos + ((c.2.data.drop c.2.pos).take (n + 1)).length
    · obtain ⟨t, ht, hl'⟩ := onWritable_end hl hleft hend now
      rw [if_pos hend, sendResult, ht]
      exact ⟨_, rfl, ⟨l, hl'⟩, by rw [hacc], by rw [hrep]⟩
    · obtain ⟨t, l', ht, hl'⟩ := onWritable_part hl hend now
      rw [if_neg hend, sendResult, ht]
      exact ⟨_, rfl, ⟨l', hl'⟩, by rw [hacc], by rw [hrep, List.append_nil]⟩

theorem sound_writable (h : f.Sound all) (taken : Option Nat) : (f.writable taken).Sound all := by
  cases taken with
  | none => exact h
  | some n => exact h.send (n + 1)

/-- Every event is a step of the `Fifo`, and only `EPOLLOUT` on a socket that is registered for
reading cannot happen. -/
theorem step_refines (h : Refines s f) (hf : f.Sound all) (ev : OutEvent) :
    (∃ t f', s.step ev = some t ∧ Refines t f' ∧ f'.Sound (all ++ pushed [ev])) ∨
      s.step ev = none ∧ s.session.interest = .input ∧ ∃ now taken, ev = .epollout now taken := by
  cases ev with
  | push packet alloc =>
    cases alloc with
    | true =>
      obtain ⟨t, ht, hr⟩ := step_push h packet
      exact Or.inl ⟨t, _, ht, hr, hf.push packet⟩
    | false => exact Or.inl ⟨s, f, step_push_failed packet, h, by simpa [pushed] using hf⟩
  | epollout now taken =>
    cases hint : s.session.interest with
    | input => exact Or.inr ⟨by simp [Out.step, hint], rfl, now, taken, rfl⟩
    | output =>
      obtain ⟨t, ht, hr⟩ := step_epollout h hf hint now taken
      exact Or.inl ⟨t, _, ht, hr, by simpa [pushed] using sound_writable hf taken⟩

theorem pushed_cons (ev : OutEvent) (evs : List OutEvent) :
    pushed (ev :: evs) = pushed [ev] ++ pushed evs := by
  rcases ev with ⟨packet, _ | _⟩ | ⟨now, taken⟩ <;> rfl

theorem run_refines {evs : List OutEvent} (h : Refines s f) (hf : f.Sound all)
    (hrun : run Out.step s evs = some t) :
    ∃ f', Refines t f' ∧ f'.Sound (all ++ pushed evs) := by
  induction evs generalizing s f all with
  | nil =>
    cases hrun
    exact ⟨f, h, by simpa [pushed] using hf⟩
  | cons ev evs ih =>
    obtain ⟨m, hm, hrest⟩ := run_cons_eq_some.mp hrun
    rcases step_refines h hf ev with ⟨m', f', hm', hr, hs⟩ | ⟨hnone, -⟩
    · rw [hm] at hm'
      cases hm'
      obtain ⟨f'', hr', hs'⟩ := ih hr hs hrest
      exact ⟨f'', hr', by rwa [pushed_cons, ← List.append_assoc]⟩
    · rw [hm] at hnone
      cases hnone

end Step

/-- **The output queue.** In every state of every run, the bytes the socket has taken are a beginning
of the pushed packets in push order, those of the packets reported as sent and then a part of the
next one; the socket is registered for reading exactly when they are all of them; and every event
the kernel can report goes through, without a dangling pointer and without ending the session. -/
theorem run_accepted_isPrefix {now : Int} {evs : List OutEvent} {s : Out}
    (hrun : run Out.step (Out.init now) evs = some s) :
    s.accepted <+: (pushed evs).flatten ∧
      s.reported <+: pushed evs ∧ s.reported.flatten <+: s.accepted ∧
      (s.session.interest = .input ↔ s.accepted = (pushed evs).flatten) ∧
      ∀ ev, s.step ev = none ↔
        s.session.interest = .input ∧ ∃ now taken, ev = .epollout now taken := by
  obtain ⟨f, hr, hs⟩ := run_refines (refines_init now) Fifo.sound_empty hrun
  rw [List.nil_append] at hs
  refine ⟨?_, ?_, ?_, ?_, fun ev => ?_⟩
  · rw [hr.2.1]
    exact hs.accepted_isPrefix
  · rw [hr.2.2, ← hs.all_eq]
    exact List.prefix_append _ _
  · rw [hr.2.1, hr.2.2, hs.accepted_eq]
    exact List.prefix_append _ _
  · rw [hr.interest, hr.2.1, hs.accepted_eq_flatten_iff]
  · rcases step_refines hr hs ev with ⟨t, f', ht, -⟩ | ⟨hnone, hint, hev⟩
    · refine ⟨fun hnone => ?_, ?_⟩
      · rw [ht] at hnone
        cases hnone
      · rintro ⟨hint, now', taken, rfl⟩
        simp [Out.step, hint]
    · exact ⟨fun _ => ⟨hint, hev⟩, fun _ => hnone⟩

/-- Two packets, the second pushed between two sends of the first. -/
theorem run_accepted_isPrefix_two :
    ∃ s, run Out.step (Out.init 0)
        [.push ⟨[0xD0, 0x00], by simp⟩ true, .epollout 1 (some 0),
          .push ⟨[0x40, 0x02, 0x00, 0x07], by simp⟩ true, .epollout 1 none, .epollout 2 (some 9)] =
          some s ∧
      s.accepted = [0xD0, 0x00] ∧ s.session.interest = .output ∧
      s.accepted <+: [0xD0, 0x00, 0x40, 0x02, 0x00, 0x07] := by
  have hany : (run Out.step (Out.init 0)
      [.push ⟨[0xD0, 0x00], by simp⟩ true, .epollout 1 (some 0),
        .push ⟨[0x40, 0x02, 0x00, 0x07], by simp⟩ true, .epollout 1 none,
        .epollout 2 (some 9)]).any
      (fun s => decide (s.accepted = [0xD0, 0x00] ∧ s.session.interest = .output)) = true := by
    decide +kernel
  obtain ⟨s, hs, hp⟩ := (Option.any_eq_true _ _).mp hany
  obtain ⟨hacc, hint⟩ := of_decide_eq_true hp
  exact ⟨s, hs, hacc, hint, (run_accepted_isPrefix hs).1⟩

end ProgrammingPath.Mqtt
