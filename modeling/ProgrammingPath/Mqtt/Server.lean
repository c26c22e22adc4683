import ProgrammingPath.Lib.Run
import ProgrammingPath.Mqtt.Reader

/-!
# The event loop of the MQTT server

`main` disconnects the sessions whose heartbeat ran out, waits for a batch of events and handles
them one by one. An event carries several bits, and each of them is handled by a branch of its own
that may disconnect the session the event is about; the branches that follow are not told. `Lifetime`
is what the loop keeps as long as no event asks for a session after one of its branches has given it
back (`EventOk`).
-/

namespace ProgrammingPath.Mqtt

open ProgrammingPath.Lib

/-! ## State and events -/

/-- What is done to a session, with the pointer it is done through. -/
inductive Op
  | accept (session : Nat)
  | read (session : Nat)
  | write (session : Nat)
  | disconnect (session : Nat)
  deriving DecidableEq, Repr

def Op.session : Op → Nat
  | .accept session => session
  | .read session => session
  | .write session => session
  | .disconnect session => session

/-- What `data.ptr` of an event points to. -/
inductive Target
  | udp
  | listen
  | client (session : Nat)
  deriving DecidableEq, Repr

/-- An event, with what the system calls made for it return: `read` through `sock`, `send`, `malloc`
for answers, and whether `client_accept` gets a session. -/
structure Event where
  target : Target
  epollin : Bool
  epollout : Bool
  epollerr : Bool
  epollhup : Bool
  now : Int
  sock : Sock
  alloc : Bool
  send : SendResult
  accepted : Bool
  deriving DecidableEq, Repr

/-- The locals of `main`: the list of clients, the counter, and the events of the last batch that
are not handled yet. `fresh` is a pointer that was never handed out, and `log` what was done so
far. -/
structure Server where
  clients : List (Nat × Session)
  eventsCount : Int
  pending : List Event
  fresh : Nat
  log : List Op

def Server.init : Server := ⟨[], 2, [], 0, []⟩

namespace Server

/-- The session behind a pointer, as long as it is not freed. -/
def find (s : Server) (session : Nat) : Option Session :=
  (s.clients.find? fun c => c.1 = session).map Prod.snd

/-- Write a session back. -/
def update (s : Server) (session : Nat) (v : Session) : Server :=
  { s with clients := s.clients.map fun c => if c.1 = session then (c.1, v) else c }

def note (s : Server) (op : Op) : Server := { s with log := s.log ++ [op] }

/-- `client_disconnect` and the counter. A session that is freed already is on no list any more; what
else the second `free` destroys is not followed. -/
def clientDisconnect (s : Server) (session : Nat) : Server :=
  { s with
    clients := s.clients.filter fun c => c.1 != session
    eventsCount := s.eventsCount - 1
    log := s.log ++ [.disconnect session] }

/-- `client_accept` for the listening socket. -/
def clientAccept (s : Server) (now : Int) : Server :=
  { s with
    clients := (s.fresh, Session.accepted now) :: s.clients
    eventsCount := s.eventsCount + 1
    fresh := s.fresh + 1
    log := s.log ++ [.accept s.fresh] }

/-- The sessions whose heartbeat ran out. -/
def expired (s : Server) (timeCur : Int) : List Nat :=
  (s.clients.filter fun c => c.2.heartTime < timeCur - c.2.lastTime).map Prod.fst

/-- The time-out check at the head of the loop. -/
def timeOutCheck (s : Server) (timeCur : Int) : Server :=
  (s.expired timeCur).foldl clientDisconnect s

/-- The `EPOLLIN` branch for a client. No result when `client_read_message` does not return. -/
def onReadable (s : Server) (session : Nat) (e : Event) : Option Server :=
  match s.find session with
  | none => some (s.note (.read session))
  | some v => do
    let r ← clientReadMessage { v with lastTime := e.now } e.sock e.alloc
    if r.ret ≠ 0 then
      some ((s.note (.read session)).clientDisconnect session)
    else
      some ((s.note (.read session)).update session r.session)

/-- The `EPOLLOUT` branch for a client. -/
def onWritable (s : Server) (session : Nat) (e : Event) : Option Server :=
  match s.find session with
  | none => some (s.note (.write session))
  | some v => do
    let p ← Mqtt.onWritable v e.now e.send
    if p.ret = 0 then
      some ((s.note (.write session)).update session p.session)
    else
      some ((s.note (.write session)).clientDisconnect session)

/-- The body of the `for` loop: one event. -/
def onEvent (s : Server) (e : Event) : Option Server :=
  match e.target with
  | .udp => some s
  | .listen => some (if e.epollin ∧ e.accepted then s.clientAccept e.now else s)
  | .client session =>
    (if e.epollin then s.onReadable session e else some s).bind fun s =>
      (if e.epollout then s.onWritable session e else some s).bind fun s =>
        some (if e.epollerr then s.clientDisconnect session else s)

/-- What `epoll_wait` can report: at most `events_count` events, for sockets that are registered,
each of them once. -/
def Reports (s : Server) (batch : List Event) : Prop :=
  (batch.length : Int) ≤ s.eventsCount ∧ (batch.map Event.target).Nodup ∧
    ∀ e ∈ batch, ∀ session, e.target = .client session → session ∈ s.clients.map Prod.fst

instance (s : Server) (batch : List Event) : Decidable (s.Reports batch) :=
  haveI : ∀ e : Event,
      Decidable (∀ session, e.target = .client session → session ∈ s.clients.map Prod.fst) :=
    fun e => match h : e.target with
      | .udp => .isTrue fun _ hc => by cases hc
      | .listen => .isTrue fun _ hc => by cases hc
      | .client session =>
        decidable_of_iff (session ∈ s.clients.map Prod.fst)
          ⟨fun hm _ hc => by cases hc; exact hm, fun hm => hm session rfl⟩
  inferInstanceAs (Decidable (_ ∧ _ ∧ _))

/-- The head of the loop with the batch it gets, and the handling of one event. -/
inductive Action
  | wait (timeCur : Int) (batch : List Event)
  | next
  deriving DecidableEq, Repr

def step (s : Server) : Action → Option Server
  | .wait timeCur batch =>
    if s.pending = [] ∧ (s.timeOutCheck timeCur).Reports batch then
      some { s.timeOutCheck timeCur with pending := batch }
    else
      none
  | .next =>
    match s.pending with
    | [] => none
    | e :: rest => { s with pending := rest }.onEvent e

/-! ## Sessions that are alive -/

/-- The pointers of the sessions on the list. -/
def alive (s : Server) : List Nat := s.clients.map Prod.fst

/-- What the loop keeps: the counter is right, what is on the list was not disconnected, nothing is
done to a session after it was disconnected, and every event still to be handled is about a session
of its own that is alive. -/
structure Lifetime (s : Server) : Prop where
  count : s.eventsCount = 2 + s.clients.length
  nodup : s.alive.Nodup
  bound : ∀ session ∈ s.alive, session < s.fresh
  gone : ∀ session, .disconnect session ∈ s.log → session < s.fresh ∧ session ∉ s.alive
  used : s.log.Pairwise fun a b => ∀ session, a = .disconnect session → b.session ≠ session
  distinct : (s.pending.map Event.target).Nodup
  pendingAlive : ∀ e ∈ s.pending, ∀ session, e.target = .client session → session ∈ s.alive

variable {s t : Server} {session : Nat} {v : Session} {e : Event}

theorem lifetime_init : init.Lifetime where
  count := by rfl
  nodup := List.nodup_nil
  bound := by simp [init, alive]
  gone := by simp [init]
  used := List.Pairwise.nil
  distinct := List.nodup_nil
  pendingAlive := by simp [init]

theorem exists_find (h : session ∈ s.alive) : ∃ v, s.find session = some v := by
  obtain ⟨c, hc, rfl⟩ := List.mem_map.mp h
  have hsome : (s.clients.find? fun d => d.1 = c.1).isSome :=
    List.find?_isSome.mpr ⟨c, hc, by simp⟩
  obtain ⟨d, hd⟩ := Option.isSome_iff_exists.mp hsome
  exact ⟨d.2, by rw [find, hd, Option.map_some]⟩

@[simp] theorem alive_update : (s.update session v).alive = s.alive := by
  rw [alive, alive, update, List.map_map]
  apply List.map_congr_left
  intro c _
  show (if c.1 = session then (c.1, v) else c).1 = c.1
  split <;> rfl

@[simp] theorem alive_note (op : Op) : (s.note op).alive = s.alive := rfl

/-- A session that was written back is found as it was written. -/
theorem find_update (h : session ∈ s.alive) : (s.update session v).find session = some v := by
  obtain ⟨c, hc, hcs⟩ := List.mem_map.mp h
  rw [find, update, List.find?_map]
  have hfun : ((fun c : Nat × Session => decide (c.1 = session)) ∘
      fun c => if c.1 = session then (c.1, v) else c) = fun c => decide (c.1 = session) := by
    funext d
    show decide ((if d.1 = session then (d.1, v) else d).1 = session) = _
    split <;> rfl
  rw [hfun]
  have hsome : (s.clients.find? fun d => d.1 = session).isSome :=
    List.find?_isSome.mpr ⟨c, hc, by simpa using hcs⟩
  obtain ⟨d, hd⟩ := Option.isSome_iff_exists.mp hsome
  have hds : d.1 = session := by simpa using List.find?_some hd
  rw [hd, Option.map_some, Option.map_some, if_pos hds]

/-! ## The operations -/

/-- Anything but a disconnect may be done to a session that is alive. -/
theorem Lifetime.note (h : s.Lifetime) {op : Op} (hop : ∀ session, op ≠ .disconnect session)
    (hlive : op.session ∈ s.alive) : (s.note op).Lifetime where
  count := h.count
  nodup := h.nodup
  bound := h.bound
  gone := by
    intro session hmem
    rcases List.mem_append.mp hmem with hmem | hmem
    · exact h.gone session hmem
    · exact absurd (List.mem_singleton.mp hmem).symm (hop session)
  used := by
    refine List.pairwise_append.mpr ⟨h.used, List.pairwise_singleton _ _, ?_⟩
    rintro a ha b hb session rfl heq
    rw [List.mem_singleton.mp hb] at heq
    exact (h.gone session ha).2 (heq ▸ hlive)
  distinct := h.distinct
  pendingAlive := h.pendingAlive

theorem Lifetime.update (h : s.Lifetime) (session : Nat) (v : Session) :
    (s.update session v).Lifetime where
  count := by
    rw [Server.update, List.length_map]
    exact h.count
  nodup := by
    rw [alive_update]
    exact h.nodup
  bound := by
    rw [alive_update]
    exact h.bound
  gone := by
    rw [alive_update]
    exact h.gone
  used := h.used
  distinct := h.distinct
  pendingAlive := by
    rw [alive_update]
    exact h.pendingAlive

theorem alive_clientDisconnect :
    (s.clientDisconnect session).alive = s.alive.filter (· != session) := by
  rw [alive, alive, clientDisconnect, List.filter_map]
  rfl

/-- A session that is alive, and that no event still to be handled is about, is disconnected. -/
theorem Lifetime.clientDisconnect (h : s.Lifetime) (hlive : session ∈ s.alive)
    (hpending : ∀ e ∈ s.pending, e.target ≠ .client session) :
    (s.clientDisconnect session).Lifetime where
  count := by
    have hlen : (s.alive.filter (· != session)).length + 1 = s.alive.length := by
      rw [← List.Nodup.erase_eq_filter h.nodup session]
      exact List.length_erase_add_one hlive
    have hc := h.count
    rw [← alive_clientDisconnect] at hlen
    have h1 : (s.clientDisconnect session).alive.length = (s.clientDisconnect session).clients.length :=
      List.length_map _
    have h2 : s.alive.length = s.clients.length := List.length_map _
    show s.eventsCount - 1 = _
    omega
  nodup := by
    rw [alive_clientDisconnect]
    exact h.nodup.filter _
  bound := by
    intro x hx
    rw [alive_clientDisconnect] at hx
    exact h.bound x (List.mem_of_mem_filter hx)
  gone := by
    intro x hx
    rw [alive_clientDisconnect]
    rcases List.mem_append.mp hx with hx | hx
    · exact ⟨(h.gone x hx).1, fun hmem => (h.gone x hx).2 (List.mem_of_mem_filter hmem)⟩
    · have hxs : x = session := by simpa using hx
      rw [hxs]
      exact ⟨h.bound session hlive, by simp⟩
  used := by
    refine List.pairwise_append.mpr ⟨h.used, List.pairwise_singleton _ _, ?_⟩
    rintro a ha b hb x rfl heq
    rw [List.mem_singleton.mp hb] at heq
    exact (h.gone x ha).2 (heq ▸ hlive)
  distinct := h.distinct
  pendingAlive := by
    intro e he x hx
    rw [alive_clientDisconnect, List.mem_filter]
    refine ⟨h.pendingAlive e he x hx, ?_⟩
    rw [bne_iff_ne]
    rintro rfl
    exact hpending e he hx

/-- A new session has a pointer that was not in use. -/
theorem Lifetime.clientAccept (h : s.Lifetime) (now : Int) : (s.clientAccept now).Lifetime where
  count := by
    have := h.count
    show s.eventsCount + 1 = 2 + ((s.clients.length + 1 : Nat) : Int)
    omega
  nodup := by
    refine List.nodup_cons.mpr ⟨fun hmem => ?_, h.nodup⟩
    exact absurd (h.bound _ hmem) (Nat.lt_irrefl _)
  bound := by
    intro x hx
    rcases List.mem_cons.mp hx with rfl | hx
    · exact Nat.lt_succ_self _
    · exact (h.bound x hx).trans (Nat.lt_succ_self _)
  gone := by
    intro x hx
    rcases List.mem_append.mp hx with hx | hx
    · obtain ⟨hlt, hnot⟩ := h.gone x hx
      refine ⟨hlt.trans (Nat.lt_succ_self _), fun hmem => ?_⟩
      rcases List.mem_cons.mp hmem with rfl | hmem
      · exact absurd hlt (Nat.lt_irrefl _)
      · exact hnot hmem
    · simp at hx
  used := by
    refine List.pairwise_append.mpr ⟨h.used, List.pairwise_singleton _ _, ?_⟩
    rintro a ha b hb x rfl heq
    rw [List.mem_singleton.mp hb] at heq
    have hlt := (h.gone x ha).1
    rw [← heq] at hlt
    exact absurd hlt (Nat.lt_irrefl _)
  distinct := h.distinct
  pendingAlive := fun e he x hx => List.mem_cons_of_mem _ (h.pendingAlive e he x hx)

/-- Several sessions are disconnected one after the other between two batches. -/
theorem Lifetime.foldl_clientDisconnect (h : s.Lifetime) (hpending : s.pending = [])
    {sessions : List Nat} (hnodup : sessions.Nodup) (hlive : ∀ x ∈ sessions, x ∈ s.alive) :
    (sessions.foldl Server.clientDisconnect s).Lifetime := by
  induction sessions generalizing s with
  | nil => exact h
  | cons x sessions ih =>
    rw [List.nodup_cons] at hnodup
    refine ih (h.clientDisconnect (hlive x List.mem_cons_self) (by simp [hpending])) hpending hnodup.2
      fun y hy => ?_
    rw [alive_clientDisconnect, List.mem_filter, bne_iff_ne]
    refine ⟨hlive y (List.mem_cons_of_mem _ hy), ?_⟩
    rintro rfl
    exact hnodup.1 hy

theorem Lifetime.timeOutCheck (h : s.Lifetime) (hpending : s.pending = []) (timeCur : Int) :
    (s.timeOutCheck timeCur).Lifetime := by
  have hsub : (s.expired timeCur).Sublist s.alive := List.filter_sublist.map _
  exact h.foldl_clientDisconnect hpending (h.nodup.sublist hsub) fun x hx => hsub.subset hx

/-! ## One event -/

/-- `client_read_message` returns an error for the event. -/
def readFails (v : Session) (e : Event) : Bool :=
  (clientReadMessage { v with lastTime := e.now } e.sock e.alloc).any fun r => r.ret ≠ 0

/-- The session as `client_read_message` leaves it. -/
def afterRead (v : Session) (e : Event) : Session :=
  match clientReadMessage { v with lastTime := e.now } e.sock e.alloc with
  | none => v
  | some r => r.session

/-- `client_push_msg` returns an error for the event. -/
def pushFails (v : Session) (e : Event) : Bool :=
  (Mqtt.onWritable v e.now e.send).any fun p => p.ret ≠ 0

/-- No branch of the event follows one that disconnects the session: after a failing read neither
`EPOLLOUT` nor `EPOLLERR` is set, and after a failing send `EPOLLERR` is not. -/
def eventOk (s : Server) (e : Event) : Bool :=
  match e.target with
  | .udp => true
  | .listen => true
  | .client session =>
    match s.find session with
    | none => true
    | some v =>
      if e.epollin && readFails v e then
        !e.epollout && !e.epollerr
      else
        !(e.epollout && e.epollerr && pushFails (if e.epollin then afterRead v e else v) e)

/-- What `Lifetime` says while an event about a session is handled: the others are as they should
be, and this one is alive and no longer asked for. -/
structure Serving (s : Server) (session : Nat) : Prop where
  lifetime : s.Lifetime
  live : session ∈ s.alive
  pending : ∀ e ∈ s.pending, e.target ≠ .client session

theorem Serving.disconnect (h : s.Serving session) : (s.clientDisconnect session).Lifetime :=
  h.lifetime.clientDisconnect h.live h.pending

theorem Serving.note (h : s.Serving session) {op : Op} (hop : op.session = session)
    (hne : ∀ session, op ≠ .disconnect session) : (s.note op).Serving session :=
  ⟨h.lifetime.note hne (hop ▸ h.live), h.live, h.pending⟩

theorem Serving.update (h : s.Serving session) (v : Session) : (s.update session v).Serving session :=
  ⟨h.lifetime.update session v, by rw [alive_update]; exact h.live, h.pending⟩

/-- The read branch: the session is still there unless the read failed, and then it is gone. -/
theorem onReadable_cases (h : s.Serving session) (hv : s.find session = some v)
    (ht : s.onReadable session e = some t) :
    readFails v e = true ∧ t.Lifetime ∨
      readFails v e = false ∧ t.Serving session ∧ t.find session = some (afterRead v e) := by
  have hnote : (s.note (.read session)).Serving session := h.note rfl (by simp)
  rw [onReadable, hv] at ht
  simp only [Option.bind_eq_bind, Option.bind_eq_some_iff] at ht
  obtain ⟨r, hr, ht⟩ := ht
  by_cases hret : r.ret = 0
  · rw [if_neg (not_not.mpr hret)] at ht
    cases ht
    refine Or.inr ⟨by simp [readFails, hr, hret], hnote.update _, ?_⟩
    rw [find_update hnote.live, afterRead, hr]
  · rw [if_pos hret] at ht
    cases ht
    exact Or.inl ⟨by simp [readFails, hr, hret], hnote.disconnect⟩

/-- The write branch likewise. -/
theorem onWritable_cases (h : s.Serving session) (hv : s.find session = some v)
    (ht : s.onWritable session e = some t) :
    pushFails v e = true ∧ t.Lifetime ∨ pushFails v e = false ∧ t.Serving session := by
  have hnote : (s.note (.write session)).Serving session := h.note rfl (by simp)
  rw [onWritable, hv] at ht
  simp only [Option.bind_eq_bind, Option.bind_eq_some_iff] at ht
  obtain ⟨p, hp, ht⟩ := ht
  by_cases hret : p.ret = 0
  · rw [if_pos hret] at ht
    cases ht
    exact Or.inr ⟨by simp [pushFails, hp, hret], hnote.update _⟩
  · rw [if_neg hret] at ht
    cases ht
    exact Or.inl ⟨by simp [pushFails, hp, hret], hnote.disconnect⟩

/-- The two branches behind the read, for a session that is alive. -/
theorem lifetime_writeAndErr {m : Server} (h : s.Serving session) (hv : s.find session = some v)
    (hok : (!(e.epollout && e.epollerr && pushFails v e)) = true)
    (hm : (if e.epollout = true then s.onWritable session e else some s) = some m)
    (ht : (if e.epollerr = true then m.clientDisconnect session else m) = t) : t.Lifetime := by
  subst ht
  by_cases hout : e.epollout = true
  · rw [if_pos hout] at hm
    rcases onWritable_cases h hv hm with ⟨hfails, hlife⟩ | ⟨-, hserving⟩
    · -- the session is gone, so `EPOLLERR` is not set
      have herr : e.epollerr = false := by simpa [hout, hfails] using hok
      rw [herr]
      exact hlife
    · split
      · exact hserving.disconnect
      · exact hserving.lifetime
  · rw [if_neg hout] at hm
    cases hm
    split
    · exact h.disconnect
    · exact h.lifetime

theorem lifetime_onEvent_client (h : s.Serving session) (htarget : e.target = .client session)
    (hok : s.eventOk e = true) (ht : s.onEvent e = some t) : t.Lifetime := by
  obtain ⟨v, hv⟩ := exists_find h.live
  simp only [eventOk, htarget, hv] at hok
  simp only [onEvent, htarget, Option.bind_eq_some_iff, Option.some.injEq] at ht
  obtain ⟨m, hm, m', hm', ht⟩ := ht
  by_cases hin : e.epollin = true
  · rw [if_pos hin] at hm
    rcases onReadable_cases h hv hm with ⟨hfails, hlife⟩ | ⟨hfails, hserving, hfind⟩
    · -- the session is gone, so no other bit is set
      rw [hin, hfails, Bool.and_true, if_pos rfl, Bool.and_eq_true, Bool.not_eq_true',
        Bool.not_eq_true'] at hok
      simp only [hok.1, hok.2, Bool.false_eq_true, if_false, Option.some.injEq] at hm' ht
      subst hm' ht
      exact hlife
    · rw [hin, hfails, Bool.and_false, if_neg Bool.false_ne_true, if_pos rfl] at hok
      exact lifetime_writeAndErr hserving hfind hok hm' ht
  · rw [if_neg hin] at hm
    cases hm
    rw [Bool.not_eq_true] at hin
    rw [hin, Bool.false_and, if_neg Bool.false_ne_true, if_neg Bool.false_ne_true] at hok
    exact lifetime_writeAndErr h hv hok hm' ht

/-- Handling an event keeps what the loop keeps. -/
theorem lifetime_onEvent {rest : List Event} (h : s.Lifetime) (hpending : s.pending = e :: rest)
    (hok : s.eventOk e = true) (ht : { s with pending := rest }.onEvent e = some t) :
    t.Lifetime := by
  have hdistinct := h.distinct
  rw [hpending, List.map_cons, List.nodup_cons] at hdistinct
  have hrest : ({ s with pending := rest } : Server).Lifetime :=
    ⟨h.count, h.nodup, h.bound, h.gone, h.used, hdistinct.2, fun e' he' =>
      h.pendingAlive e' (hpending ▸ List.mem_cons_of_mem _ he')⟩
  cases htarget : e.target with
  | udp =>
    simp only [onEvent, htarget, Option.some.injEq] at ht
    subst ht
    exact hrest
  | listen =>
    simp only [onEvent, htarget, Option.some.injEq] at ht
    subst ht
    split
    · exact hrest.clientAccept _
    · exact hrest
  | client session =>
    refine lifetime_onEvent_client ⟨hrest, ?_, ?_⟩ htarget hok ht
    · exact h.pendingAlive e (hpending ▸ List.mem_cons_self) session htarget
    · intro e' he' heq
      exact hdistinct.1 (List.mem_map.mpr ⟨e', he', heq.trans htarget.symm⟩)

/-! ## Whole runs -/

/-- The batch fits into the array `events[100]` that `main` hands to `epoll_wait`, and no event of it
asks for a session after giving it back. -/
def actionOk (s : Server) : Action → Bool
  | .wait _ batch => batch.length ≤ 100
  | .next =>
    match s.pending with
    | [] => true
    | e :: _ => s.eventOk e

theorem lifetime_step {a : Action} (h : s.Lifetime) (hok : s.actionOk a = true)
    (ht : s.step a = some t) : t.Lifetime := by
  cases a with
  | wait timeCur batch =>
    simp only [step, Option.ite_none_right_eq_some, Option.some.injEq] at ht
    obtain ⟨⟨hpending, -, hnodup, hlive⟩, rfl⟩ := ht
    have hcheck := h.timeOutCheck hpending timeCur
    exact ⟨hcheck.count, hcheck.nodup, hcheck.bound, hcheck.gone, hcheck.used, hnodup, hlive⟩
  | next =>
    cases hpending : s.pending with
    | nil => simp [step, hpending] at ht
    | cons e rest =>
      simp only [step, hpending] at ht
      simp only [actionOk, hpending] at hok
      exact lifetime_onEvent h hpending hok ht

/-- A session is disconnected at most once. -/
theorem Lifetime.count_disconnect (h : s.Lifetime) (session : Nat) :
    s.log.count (.disconnect session) ≤ 1 := by
  by_contra hlt
  have hsub : [Op.disconnect session, .disconnect session].Sublist s.log :=
    List.replicate_sublist_iff.mpr (show 2 ≤ _ by omega)
  have hpair := h.used.sublist hsub
  rw [List.pairwise_pair] at hpair
  exact hpair session rfl rfl

/-- **Session lifecycle.** In every state of every run whose batches fit into the array of `main` and
whose events do not ask for a session after giving it back, the counter is 2 plus the number of
sessions on the list, every session was disconnected at most once, and nothing was done to a session
after it was disconnected. -/
theorem run_lifetime {acts : List Action} (hrun : run step init acts = some s)
    (hok : Meets step (fun s a => s.actionOk a = true) init acts) :
    s.eventsCount = 2 + s.clients.length ∧
      (∀ session, s.log.count (.disconnect session) ≤ 1) ∧
      ∀ before after session, s.log = before ++ .disconnect session :: after →
        ∀ op ∈ after, op.session ≠ session := by
  have h : s.Lifetime := run_invariant (fun _ _ _ hs => lifetime_step hs) lifetime_init hok hrun
  refine ⟨h.count, h.count_disconnect, ?_⟩
  intro before after session hlog op hop
  have hused := h.used
  rw [hlog] at hused
  exact List.rel_of_pairwise_cons (List.pairwise_append.mp hused).2.1 hop session rfl

/-- An event without bits, and with calls that find nothing to do. -/
def quiet (target : Target) (now : Int) : Event :=
  ⟨target, false, false, false, false, now, ⟨[], []⟩, true, .again, true⟩

/-- A client connects, pings, is answered, and then its connection breaks. -/
def pinged : List Action :=
  [.wait 0 [{ quiet .listen 0 with epollin := true }], .next,
    .wait 1 [{ quiet (.client 0) 1 with
      epollin := true, sock := ⟨[0xC0, 0x00], [.data 0, .data 0]⟩ }], .next,
    .wait 2 [{ quiet (.client 0) 2 with epollout := true, send := .sent 9 }], .next,
    .wait 3 [{ quiet (.client 0) 3 with epollerr := true, epollhup := true }], .next]

theorem run_lifetime_pinged :
    ∃ s, run step init pinged = some s ∧
      s.log = [.accept 0, .read 0, .write 0, .disconnect 0] ∧
      s.eventsCount = 2 + s.clients.length := by
  have hany : (run step init pinged).any
      (fun s => decide (s.log = [.accept 0, .read 0, .write 0, .disconnect 0])) = true := by
    decide +kernel
  obtain ⟨s, hrun, hlog⟩ := (Option.any_eq_true _ _).mp hany
  exact ⟨s, hrun, of_decide_eq_true hlog, (run_lifetime hrun (by decide +kernel)).1⟩

/-- The peer resets the connection, and the kernel reports `EPOLLIN`, `EPOLLERR` and `EPOLLHUP` at
once: the failing read disconnects the session, and so does the error. -/
theorem run_disconnect_twice :
    ∃ s, run step init
        [.wait 0 [{ quiet .listen 0 with epollin := true }], .next,
          .wait 1 [{ quiet (.client 0) 1 with
            epollin := true, epollerr := true, epollhup := true, sock := ⟨[], [.error]⟩ }],
          .next] = some s ∧
      s.log = [.accept 0, .read 0, .disconnect 0, .disconnect 0] ∧
      s.eventsCount ≠ 2 + s.clients.length := by
  have hany : (run step init
      [.wait 0 [{ quiet .listen 0 with epollin := true }], .next,
        .wait 1 [{ quiet (.client 0) 1 with
          epollin := true, epollerr := true, epollhup := true, sock := ⟨[], [.error]⟩ }],
        .next]).any
      (fun s : Server => decide (s.log = [.accept 0, .read 0, .disconnect 0, .disconnect 0] ∧
        s.eventsCount ≠ 2 + (s.clients.length : Int))) = true := by
    decide +kernel
  obtain ⟨s, hrun, hs⟩ := (Option.any_eq_true _ _).mp hany
  exact ⟨s, hrun, of_decide_eq_true hs⟩

end Server

end ProgrammingPath.Mqtt
