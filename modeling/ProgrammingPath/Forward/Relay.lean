import ProgrammingPath.Lib.Run

/-!
# The relay between two sockets

`thread_forward` in `socket_forward.c` copies bytes between the two sockets of a
`remote_forward_session`. Each socket has one buffer for what was received on it. A socket that was
read is taken out of the set of readable ones until the other socket has taken the bytes, and this is
done by rewriting what the two sockets are registered for. `epoll_wait` returns a batch of events,
though, and the events of a batch are handled one by one, also those that a handler before them would
not have let happen any more.
-/

namespace ProgrammingPath.Forward

open ProgrammingPath.Lib

/-! ## The session -/

/-- The two streams of a session. -/
inductive Side
  | stream1
  | stream2
  deriving DecidableEq, Repr

def Side.other : Side → Side
  | .stream1 => .stream2
  | .stream2 => .stream1

@[simp] theorem Side.other_other (i : Side) : i.other.other = i := by cases i <;> rfl

@[simp] theorem Side.other_ne (i : Side) : i.other ≠ i := by cases i <;> decide

theorem Side.eq_or_eq_other (i j : Side) : j = i ∨ j = i.other := by cases i <;> cases j <;> decide

/-- What a socket is registered for. -/
inductive Interest
  | epollin
  | epollout
  | epollerr
  deriving DecidableEq, Repr

/-- A `sock_stream`: `data` are the bytes of its buffer up to `pos`, of which `pread` have been sent
on. `received` and `sent` are all the bytes that ever came out of and went into the socket. -/
structure Stream where
  interest : Interest
  data : List UInt8
  pread : Nat
  received : List UInt8
  sent : List UInt8
  deriving DecidableEq, Repr

/-- `remote_forward_session`. -/
structure Session where
  stream : Side → Stream
  flagClose : Bool

/-- The room in a buffer, `DATABUFF_SIZE - 10`. -/
def buffSize : Nat := 1024 * 500 - 10

/-- Both sockets are registered for reading and have not been read. -/
def Session.init : Session := ⟨fun _ => ⟨.epollin, [], 0, [], []⟩, false⟩

/-- Change one stream. -/
def Session.set (s : Session) (i : Side) (v : Stream) : Session :=
  { s with stream := fun j => if j = i then v else s.stream j }

@[simp] theorem Session.set_self (s : Session) (i : Side) (v : Stream) : (s.set i v).stream i = v :=
  if_pos rfl

@[simp] theorem Session.set_other (s : Session) (i : Side) (v : Stream) :
    (s.set i v).stream i.other = s.stream i.other := if_neg i.other_ne

@[simp] theorem Session.set_other_self (s : Session) (i : Side) (v : Stream) :
    (s.set i.other v).stream i = s.stream i := if_neg (Ne.symm i.other_ne)

@[simp] theorem Session.set_flagClose (s : Session) (i : Side) (v : Stream) :
    (s.set i v).flagClose = s.flagClose := rfl

/-! ## The events -/

/-- What `epoll_wait` reports of one socket. `broken` stands for `EPOLLERR` and `EPOLLHUP`. -/
structure Event where
  side : Side
  epollin : Bool
  epollout : Bool
  broken : Bool
  deriving DecidableEq, Repr

/-- What `recv` does: bytes, an error that passes, or the end of the connection. -/
inductive Recv
  | data (bytes : List UInt8)
  | again
  | closed
  deriving DecidableEq, Repr

/-- What `send` does: it takes so many bytes, or fails for now, or for good. -/
inductive Send
  | took (n : Nat)
  | again
  | failed
  deriving DecidableEq, Repr

/-- The branch for `EPOLLIN`. The buffer is emptied before `sock_stream_recv`. -/
def onReadable (s : Session) (i : Side) : Recv → Option Session
  | .again => some (s.set i { s.stream i with data := [], pread := 0 })
  | .closed => some { s.set i { s.stream i with data := [], pread := 0 } with flagClose := true }
  | .data bytes =>
    if bytes = [] ∨ buffSize < bytes.length then none
    else
      some ((s.set i { s.stream i with
        interest := .epollerr, data := bytes, pread := 0
        received := (s.stream i).received ++ bytes }).set i.other
          { s.stream i.other with interest := .epollout })

/-- The end of the branch for `EPOLLOUT`: when the buffer of the source is sent, both are registered for
reading. -/
def afterSend (s : Session) (w : Side) : Session :=
  if (s.stream w.other).pread = (s.stream w.other).data.length then
    (s.set w { s.stream w with interest := .epollin }).set w.other
      { s.stream w.other with interest := .epollin, data := [], pread := 0 }
  else s

/-- The branch for `EPOLLOUT` of the socket `w`. -/
def onWritable (s : Session) (w : Side) : Send → Option Session
  | .again => some (afterSend s w)
  | .failed => some (afterSend { s with flagClose := true } w)
  | .took n =>
    let src := s.stream w.other
    if n = 0 ∨ src.data.length - src.pread < n then none
    else
      some (afterSend ((s.set w { s.stream w with
        sent := (s.stream w).sent ++ (src.data.drop src.pread).take n }).set w.other
          { src with pread := src.pread + n }) w)

/-- The body of the loop over the events of a batch. -/
def handle (s : Session) (e : Event) (recv : Recv) (send : Send) : Option Session :=
  if e.epollin then onReadable s e.side recv
  else
    (if e.epollout then onWritable s e.side send else some s).map fun s =>
      if e.broken then { s with flagClose := true } else s

/-! ## The thread -/

/-- The session and the events of the batch that have not been handled. -/
structure Conf where
  session : Session
  pending : List Event

def Conf.init : Conf := ⟨.init, []⟩

inductive Act
  /-- `epoll_wait` returns these events -/
  | wait (events : List Event)
  /-- the next event is handled, and this is what `recv` or `send` does -/
  | handle (recv : Recv) (send : Send)
  deriving DecidableEq, Repr

/-- A socket is reported for what it is registered for, or because it is broken. -/
def Reportable (s : Session) (e : Event) : Prop :=
  (e.epollin = true → (s.stream e.side).interest = .epollin) ∧
    (e.epollout = true → (s.stream e.side).interest = .epollout)

instance (s : Session) (e : Event) : Decidable (Reportable s e) :=
  inferInstanceAs (Decidable (_ ∧ _))

/-- A step of `thread_forward`. `epoll_wait` is called when the batch before is done, and not any more
for a session that is to be closed; it reports each socket at most once. -/
def step (c : Conf) : Act → Option Conf
  | .wait events =>
    if c.pending = [] ∧ c.session.flagClose = false ∧ (events.map Event.side).Nodup ∧
        ∀ e ∈ events, Reportable c.session e then
      some { c with pending := events }
    else none
  | .handle recv send =>
    match c.pending with
    | [] => none
    | e :: rest => (handle c.session e recv send).map fun s => ⟨s, rest⟩

/-! ## What a handler does -/

variable {s s' : Session} {e : Event} {recv : Recv} {send : Send} {i j : Side}

/-- The branches of the loop body, for a session that is not to be closed after it. -/
theorem handle_cases (h : handle s e recv send = some s') (hopen : s'.flagClose = false) :
    (e.epollin = true ∧ onReadable s e.side recv = some s') ∨
      (e.epollin = false ∧ e.epollout = true ∧ onWritable s e.side send = some s') ∨
      (e.epollin = false ∧ e.epollout = false ∧ s' = s) := by
  rw [handle] at h
  split at h
  · next hin => exact .inl ⟨hin, h⟩
  · next hin =>
    rw [Bool.not_eq_true] at hin
    obtain ⟨t, ht, hs'⟩ := Option.map_eq_some_iff.mp h
    have hsame : s' = t := by
      rw [← hs']
      split
      · next hb => rw [← hs', if_pos hb] at hopen; cases hopen
      · rfl
    rw [hsame]
    split at ht
    · next hout => exact .inr (.inl ⟨hin, hout, ht⟩)
    · next hout =>
      cases ht
      exact .inr (.inr ⟨hin, Bool.not_eq_true _ ▸ hout, rfl⟩)

/-- What `sock_stream_recv` leads to. -/
theorem onReadable_cases (h : onReadable s i recv = some s') (hopen : s'.flagClose = false) :
    (recv = .again ∧ s' = s.set i { s.stream i with data := [], pread := 0 }) ∨
      ∃ bytes, recv = .data bytes ∧ bytes ≠ [] ∧
        s' = (s.set i { s.stream i with
          interest := .epollerr, data := bytes, pread := 0
          received := (s.stream i).received ++ bytes }).set i.other
            { s.stream i.other with interest := .epollout } := by
  cases recv with
  | again => exact .inl ⟨rfl, (Option.some.inj h).symm⟩
  | closed =>
    cases h
    cases hopen
  | data bytes =>
    rw [onReadable] at h
    split at h
    · cases h
    · next hfit => exact .inr ⟨bytes, rfl, fun hnil => hfit (.inl hnil), (Option.some.inj h).symm⟩

theorem afterSend_flagClose (s : Session) (w : Side) : (afterSend s w).flagClose = s.flagClose := by
  rw [afterSend]
  split <;> rfl

/-- What `send` leads to. -/
theorem onWritable_cases (h : onWritable s i send = some s') (hopen : s'.flagClose = false) :
    (send = .again ∧ s' = afterSend s i) ∨
      ∃ n, send = .took n ∧ 0 < n ∧
        n ≤ (s.stream i.other).data.length - (s.stream i.other).pread ∧
        s' = afterSend ((s.set i { s.stream i with
          sent := (s.stream i).sent ++
            ((s.stream i.other).data.drop (s.stream i.other).pread).take n }).set i.other
              { s.stream i.other with pread := (s.stream i.other).pread + n }) i := by
  cases send with
  | again => exact .inl ⟨rfl, (Option.some.inj h).symm⟩
  | failed =>
    cases h
    rw [afterSend_flagClose] at hopen
    cases hopen
  | took n =>
    rw [onWritable] at h
    split at h
    · cases h
    · next hfit => exact .inr ⟨n, rfl, by omega, by omega, (Option.some.inj h).symm⟩

theorem onReadable_flagClose (h : onReadable s i recv = some s') (hopen : s'.flagClose = false) :
    s.flagClose = false := by
  rcases onReadable_cases h hopen with ⟨-, rfl⟩ | ⟨_, -, -, rfl⟩ <;> exact hopen

theorem onWritable_flagClose (h : onWritable s i send = some s') (hopen : s'.flagClose = false) :
    s.flagClose = false := by
  rcases onWritable_cases h hopen with ⟨-, rfl⟩ | ⟨_, -, -, -, rfl⟩ <;>
  · rw [afterSend_flagClose] at hopen
    exact hopen

/-- A session that is to be closed stays so. -/
theorem handle_flagClose (h : handle s e recv send = some s') (hopen : s'.flagClose = false) :
    s.flagClose = false := by
  rcases handle_cases h hopen with ⟨-, hr⟩ | ⟨-, -, hw⟩ | ⟨-, -, rfl⟩
  · exact onReadable_flagClose hr hopen
  · exact onWritable_flagClose hw hopen
  · exact hopen

/-! ## Idle and busy -/

/-- Nothing is under way: both sockets wait for bytes, and all that came was sent. -/
def Idle (s : Session) : Prop :=
  ∀ i, (s.stream i).interest = .epollin ∧ (s.stream i).data = [] ∧ (s.stream i).pread = 0 ∧
    (s.stream i).sent = (s.stream i.other).received

/-- Bytes of stream `i` are under way to the other one, and none in the other direction. -/
structure Busy (s : Session) (i : Side) : Prop where
  source : (s.stream i).interest = .epollerr
  target : (s.stream i.other).interest = .epollout
  left : (s.stream i).pread < (s.stream i).data.length
  under_way : ∃ old, (s.stream i).received = old ++ (s.stream i).data ∧
    (s.stream i.other).sent = old ++ (s.stream i).data.take (s.stream i).pread
  other_data : (s.stream i.other).data = []
  other_pread : (s.stream i.other).pread = 0
  other_sent : (s.stream i).sent = (s.stream i.other).received

/-- A read starts a transfer, or finds nothing. -/
theorem idle_onReadable (hidle : Idle s) (h : onReadable s i recv = some s')
    (hopen : s'.flagClose = false) : Idle s' ∨ Busy s' i := by
  rcases onReadable_cases h hopen with ⟨-, rfl⟩ | ⟨bytes, -, hne, rfl⟩
  · left
    intro j
    rcases i.eq_or_eq_other j with rfl | rfl
    · obtain ⟨hin, -, -, hsent⟩ := hidle j
      simpa using ⟨hin, hsent⟩
    · simpa using hidle i.other
  · right
    obtain ⟨-, -, -, hsent⟩ := hidle i
    obtain ⟨-, hdata, hpread, hsent'⟩ := hidle i.other
    rw [Side.other_other] at hsent'
    refine ⟨by simp, by simp, ?_, ⟨(s.stream i).received, by simp, by simpa using hsent'⟩,
      by simpa using hdata, by simpa using hpread, by simpa using hsent⟩
    simpa using List.length_pos_of_ne_nil hne

/-- An event that is out of date does no harm as long as it brings no bytes. -/
theorem busy_onReadable (hbusy : Busy s j) (h : onReadable s j.other recv = some s')
    (hfresh : ∀ bytes, recv = .data bytes → (s.stream j.other).interest = .epollin)
    (hopen : s'.flagClose = false) : Busy s' j := by
  rcases onReadable_cases h hopen with ⟨-, rfl⟩ | ⟨bytes, hrecv, -, -⟩
  · obtain ⟨hsrc, htgt, hleft, ⟨old, hrec, hsent⟩, hdata, hpread, hsent'⟩ := hbusy
    exact ⟨by simpa using hsrc, by simpa using htgt, by simpa using hleft,
      ⟨old, by simpa using hrec, by simpa using hsent⟩, by simp, by simp, by simpa using hsent'⟩
  · have htgt := hfresh bytes hrecv
    rw [hbusy.target] at htgt
    cases htgt

/-- The other socket takes bytes. -/
theorem busy_onWritable (hbusy : Busy s j) (h : onWritable s j.other send = some s')
    (hopen : s'.flagClose = false) : Idle s' ∨ Busy s' j := by
  obtain ⟨hsrc, htgt, hleft, ⟨old, hrec, hsent⟩, hdata, hpread, hsent'⟩ := hbusy
  rcases onWritable_cases h hopen with ⟨-, rfl⟩ | ⟨n, -, hpos, hn, rfl⟩
  · right
    rw [afterSend, if_neg (by rw [Side.other_other]; omega)]
    exact ⟨hsrc, htgt, hleft, ⟨old, hrec, hsent⟩, hdata, hpread, hsent'⟩
  · rw [Side.other_other] at hn ⊢
    have htake : (s.stream j).data.take (s.stream j).pread ++
        ((s.stream j).data.drop (s.stream j).pread).take n =
          (s.stream j).data.take ((s.stream j).pread + n) := List.take_add.symm
    by_cases hdone : (s.stream j).pread + n = (s.stream j).data.length
    · left
      rw [afterSend, if_pos (by simpa using hdone)]
      intro k
      rcases j.eq_or_eq_other k with rfl | rfl
      · simpa using hsent'
      · rw [hdone, List.take_length] at htake
        simp [hdata, hpread, hsent, hrec, List.append_assoc, htake]
    · right
      rw [afterSend, if_neg (by simpa using hdone)]
      refine ⟨by simpa using hsrc, by simpa using htgt, ?_, ⟨old, by simpa using hrec, ?_⟩,
        by simpa using hdata, by simpa using hpread, by simpa using hsent'⟩
      · simp only [Session.set_self]
        omega
      · simp only [Session.set_self, Session.set_other]
        rw [hsent, List.append_assoc, htake]

/-! ## Whole schedules -/

/-- Bytes are received only on a socket that is still registered for reading when its event is
handled. -/
def ReadsRegistered (c : Conf) : Act → Prop
  | .handle (.data _) _ => ∀ e ∈ c.pending.head?, e.epollin = true →
    (c.session.stream e.side).interest = .epollin
  | _ => True

instance (c : Conf) : (a : Act) → Decidable (ReadsRegistered c a)
  | .handle (.data _) _ => inferInstanceAs (Decidable (∀ e ∈ c.pending.head?, _ → _))
  | .handle .again _ => inferInstanceAs (Decidable True)
  | .handle .closed _ => inferInstanceAs (Decidable True)
  | .wait _ => inferInstanceAs (Decidable True)

/-- The session is idle or busy, and what is left of the batch fits to that. -/
def Phase (s : Session) (pending : List Event) : Prop :=
  (Idle s ∧ ∀ e ∈ pending, e.epollout = false) ∨
    ∃ i, Busy s i ∧ ∀ e ∈ pending, e.epollin = true ∨ e.epollout = true → e.side = i.other

/-- Every socket has at most one event in a batch, and the session is in a phase until it is to be
closed. -/
def Inv (c : Conf) : Prop :=
  (c.pending.map Event.side).Nodup ∧
    (c.session.flagClose = false → Phase c.session c.pending)

/-- `epoll_wait` reports what fits to the phase. -/
theorem phase_wait {events : List Event} (h : Phase s []) (hrep : ∀ e ∈ events, Reportable s e) :
    Phase s events := by
  rcases h with ⟨hidle, -⟩ | ⟨i, hbusy, -⟩
  · refine .inl ⟨hidle, fun e he => ?_⟩
    by_contra hout
    have := (hrep e he).2 (Bool.not_eq_false _ ▸ hout)
    rw [(hidle e.side).1] at this
    cases this
  · refine .inr ⟨i, hbusy, fun e he hev => ?_⟩
    rcases i.eq_or_eq_other e.side with hside | hside
    · obtain ⟨hin, hout⟩ := hrep e he
      rw [hside, hbusy.source] at hin hout
      rcases hev with hev | hev
      · cases hin hev
      · cases hout hev
    · exact hside

/-- A handler leads from phase to phase. -/
theorem phase_handle {rest : List Event} (h : Phase s (e :: rest))
    (hnodup : ((e :: rest).map Event.side).Nodup)
    (hfresh : ∀ bytes, recv = .data bytes → e.epollin = true →
      (s.stream e.side).interest = .epollin)
    (hhandle : handle s e recv send = some s') (hopen : s'.flagClose = false) : Phase s' rest := by
  have hsides : ∀ d ∈ rest, d.side ≠ e.side := by
    intro d hd heq
    rw [List.map_cons, List.nodup_cons] at hnodup
    exact hnodup.1 (heq ▸ List.mem_map_of_mem hd)
  rcases h with ⟨hidle, hpend⟩ | ⟨i, hbusy, hpend⟩
  · have hout := hpend e List.mem_cons_self
    have hrest : ∀ d ∈ rest, d.epollout = false := fun d hd => hpend d (List.mem_cons_of_mem _ hd)
    rcases handle_cases hhandle hopen with ⟨-, hr⟩ | ⟨-, hout', -⟩ | ⟨-, -, rfl⟩
    · rcases idle_onReadable hidle hr hopen with hidle' | hbusy
      · exact .inl ⟨hidle', hrest⟩
      · refine .inr ⟨e.side, hbusy, fun d hd _ => ?_⟩
        exact (e.side.eq_or_eq_other d.side).resolve_left (hsides d hd)
    · rw [hout] at hout'
      cases hout'
    · exact .inl ⟨hidle, hrest⟩
  · have hrest : ∀ d ∈ rest, d.epollin = true ∨ d.epollout = true → d.side = i.other :=
      fun d hd => hpend d (List.mem_cons_of_mem _ hd)
    rcases handle_cases hhandle hopen with ⟨hin, hr⟩ | ⟨-, hout, hw⟩ | ⟨-, -, rfl⟩
    · have hside := hpend e List.mem_cons_self (.inl hin)
      rw [hside] at hr hfresh
      exact .inr ⟨i, busy_onReadable hbusy hr (fun b hb => hfresh b hb hin) hopen, hrest⟩
    · have hside := hpend e List.mem_cons_self (.inr hout)
      rw [hside] at hw
      rcases busy_onWritable hbusy hw hopen with hidle | hbusy'
      · -- the only event that could be for writing was this one
        refine .inl ⟨hidle, fun d hd => ?_⟩
        by_contra hd'
        have := hrest d hd (.inr (Bool.not_eq_false _ ▸ hd'))
        exact hsides d hd (this.trans hside.symm)
      · exact .inr ⟨i, hbusy', hrest⟩
    · exact .inr ⟨i, hbusy, hrest⟩

theorem inv_step (c : Conf) (a : Act) (c' : Conf) (h : Inv c) (hok : ReadsRegistered c a)
    (hstep : step c a = some c') : Inv c' := by
  obtain ⟨hnodup, hphase⟩ := h
  cases a with
  | wait events =>
    rw [step] at hstep
    split at hstep
    · next hwait =>
      cases hstep
      obtain ⟨hnil, hopen, hdistinct, hrep⟩ := hwait
      rw [hnil] at hphase
      exact ⟨hdistinct, fun _ => phase_wait (hphase hopen) hrep⟩
    · cases hstep
  | handle recv send =>
    rw [step] at hstep
    split at hstep
    · cases hstep
    · next e rest hpend =>
      obtain ⟨s', hs', rfl⟩ := Option.map_eq_some_iff.mp hstep
      rw [hpend] at hnodup hphase
      refine ⟨(List.nodup_cons.mp hnodup).2, fun hopen => ?_⟩
      refine phase_handle (hphase (handle_flagClose hs' hopen)) hnodup ?_ hs' hopen
      rintro bytes rfl hin
      exact hok e (by rw [hpend]; rfl) hin

theorem inv_init : Inv Conf.init := by
  refine ⟨List.nodup_nil, fun _ => .inl ⟨fun i => ⟨rfl, rfl, rfl, rfl⟩, fun e he => ?_⟩⟩
  cases he

/-- What was sent on a socket is the beginning of what was received on the other one, and all of it
when the socket is registered for reading. -/
def Relays (s : Session) : Prop :=
  ∀ i, (s.stream i).sent <+: (s.stream i.other).received ∧
    ((s.stream i).interest = .epollin → (s.stream i).sent = (s.stream i.other).received)

theorem Idle.relays (h : Idle s) : Relays s := by
  intro i
  obtain ⟨-, -, -, hsent⟩ := h i
  exact ⟨hsent ▸ List.prefix_refl _, fun _ => hsent⟩

theorem Busy.relays (h : Busy s i) : Relays s := by
  intro j
  rcases i.eq_or_eq_other j with rfl | rfl
  · exact ⟨h.other_sent ▸ List.prefix_refl _, fun _ => h.other_sent⟩
  · obtain ⟨old, hrec, hsent⟩ := h.under_way
    rw [Side.other_other, hrec, hsent]
    refine ⟨(List.prefix_append_right_inj old).mpr (List.take_prefix _ _), fun hin => ?_⟩
    rw [h.target] at hin
    cases hin

/-- Every schedule in which bytes are received only on sockets that are still registered for reading
relays: no byte is lost, sent twice or out of order, in either direction. -/
theorem relays_of_readsRegistered (acts : List Act) (c : Conf)
    (hok : Meets step ReadsRegistered Conf.init acts) (hrun : run step Conf.init acts = some c)
    (hopen : c.session.flagClose = false) : Relays c.session := by
  have hinv : Inv c := run_invariant inv_step inv_init hok hrun
  rcases hinv.2 hopen with ⟨hidle, -⟩ | ⟨i, hbusy, -⟩
  · exact hidle.relays
  · exact hbusy.relays

/-- An event of a readable socket, and one of a writable socket. -/
def readable (i : Side) : Event := ⟨i, true, false, false⟩

def writable (i : Side) : Event := ⟨i, false, true, false⟩

/-- Three bytes come on the first socket and go out on the second one in two pieces. -/
def plainSchedule : List Act :=
  [.wait [readable .stream1], .handle (.data [1, 2, 3]) .again, .wait [writable .stream2],
    .handle .again (.took 2), .wait [writable .stream2], .handle .again (.took 1)]

theorem relays_of_readsRegistered_plain :
    ∃ c, run step Conf.init plainSchedule = some c ∧
      (c.session.stream .stream2).sent = [1, 2, 3] ∧ Relays c.session := by
  have hrun : (run step Conf.init plainSchedule).any (fun c =>
      decide (c.session.flagClose = false ∧ (c.session.stream .stream2).sent = [1, 2, 3])) = true := by
    decide +kernel
  obtain ⟨c, hc, hdone⟩ := (Option.any_eq_true _ _).mp hrun
  obtain ⟨hopen, hsent⟩ := of_decide_eq_true hdone
  exact ⟨c, hc, hsent, relays_of_readsRegistered plainSchedule c (by decide +kernel) hc hopen⟩

/-- Both sockets are readable in one batch. -/
def crossedSchedule : List Act :=
  [.wait [readable .stream1, readable .stream2], .handle (.data [1]) .again,
    .handle (.data [2]) .again, .wait [writable .stream1], .handle .again (.took 1)]

/-- After the second read only the first socket waits for writing. When it has taken its byte both are
registered for reading again, with the byte of the first socket still in its buffer; the next read
empties it, and the other socket gets the byte after it instead. -/
theorem crossed_reads_lose_byte :
    (∃ c, run step Conf.init crossedSchedule = some c ∧ c.session.flagClose = false ∧
      (c.session.stream .stream2).interest = .epollin ∧
      (c.session.stream .stream1).received = [1] ∧ (c.session.stream .stream2).sent = []) ∧
    ∃ c, run step Conf.init (crossedSchedule ++
        [.wait [readable .stream1], .handle (.data [3]) .again, .wait [writable .stream2],
          .handle .again (.took 1)]) = some c ∧ c.session.flagClose = false ∧
      (c.session.stream .stream1).received = [1, 3] ∧ (c.session.stream .stream2).sent = [3] ∧
      ¬Relays c.session := by
  constructor
  · have hrun : (run step Conf.init crossedSchedule).any (fun c =>
        decide (c.session.flagClose = false ∧ (c.session.stream .stream2).interest = .epollin ∧
          (c.session.stream .stream1).received = [1] ∧ (c.session.stream .stream2).sent = [])) =
        true := by
      decide +kernel
    obtain ⟨c, hc, hfacts⟩ := (Option.any_eq_true _ _).mp hrun
    exact ⟨c, hc, of_decide_eq_true hfacts⟩
  · have hrun : (run step Conf.init (crossedSchedule ++
        [.wait [readable .stream1], .handle (.data [3]) .again, .wait [writable .stream2],
          .handle .again (.took 1)])).any (fun c => decide (c.session.flagClose = false ∧
          (c.session.stream .stream1).received = [1, 3] ∧
            (c.session.stream .stream2).sent = [3])) = true := by
      decide +kernel
    obtain ⟨c, hc, hfacts⟩ := (Option.any_eq_true _ _).mp hrun
    obtain ⟨hopen, hrec, hsent⟩ := of_decide_eq_true hfacts
    refine ⟨c, hc, hopen, hrec, hsent, fun hrel => ?_⟩
    have hprefix := (hrel .stream2).1
    rw [hsent, show Side.stream2.other = Side.stream1 from rfl, hrec] at hprefix
    exact absurd hprefix (by decide)

end ProgrammingPath.Forward
