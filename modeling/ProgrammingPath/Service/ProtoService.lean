import ProgrammingPath.Lib.Run
import Mathlib.Algebra.Group.Nat.Defs
import Mathlib.Data.List.Nodup

/-!
# The sessions of `proto_service`

`proto_service_loop` closes sessions that asked for it, waits for events, calls back the sessions whose timers have
run out, and then handles the events one after the other. A step is what the loop does for one session or for one
event, so that a run consists of passes whose callbacks may answer anything. `Kept` is what is owed about the sessions
and their callbacks. It is lost when the timer closes a session that has an event in the same pass, and when
`accept` fails, as the event of the listening socket is then taken for that of a session.
-/

namespace ProgrammingPath.ProtoService

open ProgrammingPath.Lib

/-! ## Sessions and callbacks -/

/-- `enum proto_service_event`. -/
inductive PsEvent
  | sessionCreate
  | sessionDestory
  | accept
  | close
  | recv
  | write
  | timerout
  deriving DecidableEq

/-- What a callback may change in a session. -/
structure Flags where
  asyncClose : Bool
  intervalStart : Nat
  interval : Int

/-- `struct proto_session`: the memory it is in, its place in the order in which sessions were created, and its
fields. -/
structure Session where
  addr : Nat
  id : Nat
  fd : Int
  flags : Flags

/-- A callback of a session. -/
structure Call where
  session : Nat
  event : PsEvent
  deriving DecidableEq

/-- What a callback does: its result, and the flags it leaves in every session. -/
structure Reply where
  ret : Int
  flags : Session → Flags

/-- `backfun_rwhandle`, which may go by everything it was called for before, the newest call first. -/
abbrev Handler := List Call → Reply

/-- `struct proto_service_context`, with the memory of closed sessions, the number of sessions created, and the
callbacks so far, the newest first. -/
structure Context where
  listenFds : List Int
  sfd0 : Int
  sessions : List Session
  sessionCount : Int
  freed : List Session
  created : Nat
  log : List Call

/-- A pass begins with nothing to do. -/
def Context.init (listenFds : List Int) (sfd0 : Int) : Context := ⟨listenFds, sfd0, [], 0, [], 0, []⟩

/-- The flags of the sessions are set. -/
def Context.touch (c : Context) (flags : Session → Flags) : Context :=
  { c with sessions := c.sessions.map fun s => { s with flags := flags s } }

/-- `context->backfun_rwhandle`. -/
def Context.backfun (c : Context) (h : Handler) (s : Session) (event : PsEvent) : Int × Context :=
  let log := ⟨s.id, event⟩ :: c.log
  ((h log).ret, { c with log := log }.touch (h log).flags)

/-- The addresses of the sessions in the list. -/
def Context.addrs (c : Context) : List Nat := c.sessions.map Session.addr

/-- The session at an address: one of the list, or what is left of one that was freed. -/
def Context.at_ (c : Context) (addr : Nat) : Option Session :=
  (c.sessions ++ c.freed).find? fun s => s.addr = addr

/-- A session with a socket leaves the list. -/
def Context.unlink (c : Context) (s : Session) : Context :=
  if s.fd ≠ -1 then { c with sessions := c.sessions.filter fun t => t.addr ≠ s.addr } else c

/-- `_proto_service_close_session`. -/
def Context.closeSession (c : Context) (h : Handler) (s : Session) : Context :=
  -- the callback comes before the session leaves the list
  let c := ({ c with sessionCount := c.sessionCount - 1 }.backfun h s .sessionDestory).2.unlink s
  { c with freed := { s with fd := -1 } :: c.freed }

/-! ## One pass -/

/-- An `epoll_event`, with what the system answers while it is handled: the results of `accept`, of `malloc` (memory
that is not in use) and of `epoll_ctl`, and the byte of the signal pipe. -/
structure Event where
  data : Nat
  epollin : Bool
  epollpri : Bool
  epollout : Bool
  epollerr : Bool
  epollhup : Bool
  accept : Int
  malloc : (used : List Nat) → Option {addr : Nat // addr ∉ used}
  epollCtl : Int
  sfddata : UInt8

/-- `data.fd`, the low half of the union as an `int`. -/
def Event.fd (e : Event) : Int := Int.bmod e.data (2 ^ 32)

/-- A new session: it goes to the end of the list and is called back, registered and called back again. -/
def Context.acceptSession (c : Context) (h : Handler) (e : Event) (addr : Nat) : Context :=
  let s : Session := ⟨addr, c.created, e.accept, ⟨false, 0, 0⟩⟩
  let c := { c with
    sessions := c.sessions ++ [s]
    sessionCount := c.sessionCount + 1
    created := c.created + 1 }
  let (_, c) := c.backfun h s .sessionCreate
  if e.epollCtl ≠ 0 then c.closeSession h s
  else
    let (ret, c) := c.backfun h s .accept
    if ret ≠ 0 then c.closeSession h s else c

/-- The loop over the listening sockets; `none` when it runs to its end, which is also where a failed `accept` leads
to. -/
def Context.listenHandle (c : Context) (h : Handler) (e : Event) : List Int → Option Context
  | [] => none
  | fd :: fds =>
    if e.fd = fd then
      if e.epollin || e.epollpri then
        -- `continue` of the loop over the sockets
        if e.accept = -1 then c.listenHandle h e fds
        else
          match e.malloc c.addrs with
          | none => c.listenHandle h e fds
          | some addr => some (c.acceptSession h e addr)
      else some c
    else c.listenHandle h e fds

/-- The end of the handling of a session's event: errors. -/
def Context.errorHandle (c : Context) (h : Handler) (e : Event) (s : Session) : Context :=
  if e.epollerr || e.epollhup then (c.backfun h s .close).2.closeSession h s else c

/-- Its middle: data to read. The flag says that the loop goes on. -/
def Context.readHandle (c : Context) (h : Handler) (e : Event) (s : Session) : Bool × Context :=
  if e.epollin then
    -- the pipe of the signals: `q` ends the pass
    if s.fd = c.sfd0 then if e.sfddata = 113 then (false, c) else (true, c.errorHandle h e s)
    else
      let (ret, c) := c.backfun h s .recv
      if ret = -1 then (true, c.closeSession h s) else (true, c.errorHandle h e s)
  else (true, c.errorHandle h e s)

/-- The event of a session. -/
def Context.sessionHandle (c : Context) (h : Handler) (e : Event) (s : Session) : Bool × Context :=
  if e.epollout then
    let (ret, c) := c.backfun h s .write
    if ret = -1 then (true, c.closeSession h s) else c.readHandle h e s
  else c.readHandle h e s

/-- One event; `none` when there never was a session at its pointer. -/
def Context.eventHandle (c : Context) (h : Handler) (e : Event) : Option (Bool × Context) :=
  match c.listenHandle h e c.listenFds with
  | some c => some (true, c)
  | none => (c.at_ e.data).map (c.sessionHandle h e)

/-- A session that asked for it is closed. -/
def Context.asyncHandle (c : Context) (h : Handler) (s : Session) : Context :=
  if s.flags.asyncClose then c.closeSession h s else c

/-- The timer of a session has run out. -/
def Session.Expired (s : Session) (time : Int) : Prop :=
  s.flags.intervalStart ≠ 0 ∧ time > s.flags.intervalStart + s.flags.interval

instance (s : Session) (time : Int) : Decidable (s.Expired time) := inferInstanceAs (Decidable (_ ∧ _))

/-- The timer of a session is looked at. -/
def Context.timerHandle (c : Context) (h : Handler) (time : Int) (s : Session) : Context :=
  if s.Expired time then
    let c := c.touch fun t => if t.addr = s.addr then { t.flags with intervalStart := 0, interval := 0 }
      else t.flags
    let (ret, c) := c.backfun h s .timerout
    if ret = -1 then c.closeSession h s else c
  else c

/-- Where the loop is: outside a pass, among the sessions that may have asked to be closed, waiting, among the timers,
or among the events. A loop over the sessions has read `next` before it closes one, so it goes over the sessions that
were in the list at its start. -/
inductive Phase
  | outside
  | async (todo : List Nat)
  | timers (time : Int) (todo : List Nat) (batch : List Event)
  | events (batch : List Event)

structure Service where
  context : Context
  phase : Phase

/-- The steps: flags are set between two passes, a pass begins, it looks at the next session that may have asked to
be closed, `epoll_wait` returns, the pass looks at the next timer, and at the next event. -/
inductive Act
  | touch (flags : Session → Flags)
  | loop
  | async
  | epollWait (time : Int) (events : Option (List Event))
  | timer
  | event

/-- One step; `none` when the loop is not there, or follows a pointer to no session. -/
def step (h : Handler) (v : Service) : Act → Option Service
  | .touch flags =>
    match v.phase with
    | .outside => some { v with context := v.context.touch flags }
    | _ => none
  | .loop =>
    match v.phase with
    -- without a listening socket a pass does nothing
    | .outside => if v.context.listenFds = [] then some v else some { v with phase := .async v.context.addrs }
    | _ => none
  | .async =>
    match v.phase with
    | .async (addr :: todo) =>
      (v.context.at_ addr).map fun s => ⟨v.context.asyncHandle h s, .async todo⟩
    | _ => none
  | .epollWait time events =>
    match v.phase with
    | .async [] =>
      match events with
      | none => some { v with phase := .outside }
      | some batch => some { v with phase := .timers time v.context.addrs batch }
    | _ => none
  | .timer =>
    match v.phase with
    | .timers _ [] batch => some { v with phase := .events batch }
    | .timers time (addr :: todo) batch =>
      (v.context.at_ addr).map fun s => ⟨v.context.timerHandle h time s, .timers time todo batch⟩
    | _ => none
  | .event =>
    match v.phase with
    | .events [] => some { v with phase := .outside }
    | .events (e :: batch) =>
      (v.context.eventHandle h e).map fun (more, c) => ⟨c, if more then .events batch else .outside⟩
    | _ => none

/-! ## What is owed -/

/-- No session is called back after its last callback, which is that of its end. -/
def Lawful : List Call → Prop
  | [] => True
  | call :: log => ⟨call.session, .sessionDestory⟩ ∉ log ∧ Lawful log

/-- The sessions are counted, the ones that left the list are those that were told of their end, and nothing was told
to a session after that. -/
structure Kept (c : Context) : Prop where
  count : c.sessionCount = c.sessions.length
  left : ∀ id < c.created, id ∈ c.sessions.map Session.id ↔ ⟨id, .sessionDestory⟩ ∉ c.log
  lawful : Lawful c.log
  once : ∀ id, c.log.count ⟨id, .sessionDestory⟩ ≤ 1

/-- The pointers of the sessions that have an event in a batch. -/
def sessionData (listenFds : List Int) (batch : List Event) : List Nat :=
  (batch.filter fun e => e.fd ∉ listenFds).map Event.data

/-- What `epoll_wait` may return: events of the listening sockets, and of sessions, of each at most one. -/
structure Delivered (c : Context) (batch : List Event) : Prop where
  mem : ∀ addr ∈ sessionData c.listenFds batch, addr ∈ c.addrs
  nodup : (sessionData c.listenFds batch).Nodup

/-- The loop is where the step begins. -/
def Enabled (v : Service) : Act → Prop
  | .touch _ | .loop => v.phase = .outside
  | .async => ∃ addr todo, v.phase = .async (addr :: todo)
  | .epollWait _ events => v.phase = .async [] ∧ ∀ batch ∈ events, Delivered v.context batch
  | .timer => ∃ time todo batch, v.phase = .timers time todo batch
  | .event => ∃ batch, v.phase = .events batch

/-- A session whose timer has run out and whose callback asks to close it has no event in the pass, and on a listening
socket that is ready a connection is accepted and memory is there for it. -/
def Careful (h : Handler) (v : Service) : Act → Prop
  | .timer =>
    match v.phase with
    | .timers time (addr :: _) batch =>
      ∀ s ∈ v.context.sessions, s.addr = addr → s.Expired time →
        (h (⟨s.id, .timerout⟩ :: v.context.log)).ret = -1 →
        addr ∉ sessionData v.context.listenFds batch
    | _ => True
  | .event =>
    match v.phase with
    | .events (e :: _) =>
      e.fd ∈ v.context.listenFds → (e.epollin || e.epollpri) = true →
        e.accept ≠ -1 ∧ (e.malloc v.context.addrs).isSome
    | _ => True
  | _ => True

/-! ## The list and the log -/

/-- A session without its flags. -/
def Session.key (s : Session) : Nat × Nat × Int := (s.addr, s.id, s.fd)

def Context.keys (c : Context) : List (Nat × Nat × Int) := c.sessions.map Session.key

/-- The sessions have different addresses and numbers, and their sockets. Those of the sessions created that are in
the list are the ones that were not told of their end. -/
structure Invariant (c : Context) : Prop where
  count : c.sessionCount = c.keys.length
  addrs : (c.keys.map fun k => k.1).Nodup
  ids : (c.keys.map fun k => k.2.1).Nodup
  fds : ∀ k ∈ c.keys, k.2.2 ≠ -1
  created : ∀ k ∈ c.keys, k.2.1 < c.created
  called : ∀ call ∈ c.log, call.session < c.created
  left : ∀ id < c.created, id ∈ c.keys.map (fun k => k.2.1) ↔ ⟨id, .sessionDestory⟩ ∉ c.log
  lawful : Lawful c.log

variable {c c' : Context} {h : Handler} {s : Session} {e : Event} {event : PsEvent}

theorem addrs_eq (c : Context) : c.addrs = c.keys.map fun k => k.1 := by
  rw [Context.addrs, Context.keys, List.map_map]
  rfl

@[simp] theorem keys_touch (c : Context) (flags : Session → Flags) : (c.touch flags).keys = c.keys := by
  rw [Context.keys, Context.touch, List.map_map]
  rfl

theorem keys_backfun (c : Context) (h : Handler) (s : Session) (event : PsEvent) :
    (c.backfun h s event).2.keys = c.keys := keys_touch ..

theorem keys_unlink (c : Context) (hfd : s.fd ≠ -1) :
    (c.unlink s).keys = c.keys.filter fun k => k.1 ≠ s.addr := by
  rw [Context.unlink, if_pos hfd, Context.keys, Context.keys, List.filter_map]
  rfl

/-- Setting flags changes nothing that matters here. -/
theorem Invariant.touch (hinv : Invariant c) (flags : Session → Flags) : Invariant (c.touch flags) := by
  have hkeys := keys_touch c flags
  obtain ⟨h1, h2, h3, h4, h5, h6, h7, h8⟩ := hinv
  rw [← hkeys] at h1 h2 h3 h4 h5 h7
  exact ⟨h1, h2, h3, h4, h5, h6, h7, h8⟩

/-- A session of the list was not told of its end. -/
theorem Invariant.not_destoryed (hinv : Invariant c) (hs : s.key ∈ c.keys) :
    ⟨s.id, .sessionDestory⟩ ∉ c.log :=
  (hinv.left s.id (hinv.created _ hs)).mp (List.mem_map.mpr ⟨_, hs, rfl⟩)

/-- A callback other than the last one. -/
theorem Invariant.backfun (hinv : Invariant c) (hs : s.key ∈ c.keys) (hevent : event ≠ .sessionDestory) :
    Invariant (c.backfun h s event).2 := by
  apply Invariant.touch
  refine { hinv with
    called := fun call hcall => ?_
    left := fun id hid => (hinv.left id hid).trans ?_
    lawful := ⟨hinv.not_destoryed hs, hinv.lawful⟩ }
  · rcases List.mem_cons.mp hcall with rfl | hcall
    · exact hinv.created _ hs
    · exact hinv.called call hcall
  · have hne : (⟨id, .sessionDestory⟩ : Call) ≠ ⟨s.id, event⟩ := fun heq =>
      hevent (congrArg Call.event heq).symm
    rw [List.mem_cons, not_or]
    exact ⟨fun hnot => ⟨hne, hnot⟩, And.right⟩

/-- Without one session the list has the others. -/
theorem Invariant.keys_close (hinv : Invariant c) {xs ys : List (Nat × Nat × Int)}
    (hsplit : c.keys = xs ++ s.key :: ys) : (c.closeSession h s).keys = xs ++ ys := by
  have hmem : s.key ∈ c.keys := by
    rw [hsplit]
    exact List.mem_append_right xs List.mem_cons_self
  have haddrs := hinv.addrs
  rw [hsplit, List.map_append, List.map_cons, List.nodup_middle, List.nodup_cons, ← List.map_append] at haddrs
  -- no other session is at this address
  have hfilter : (c.closeSession h s).keys = c.keys.filter fun k => k.1 ≠ s.addr := by
    show (Context.unlink _ s).keys = _
    rw [keys_unlink _ (hinv.fds _ hmem), keys_backfun]
    rfl
  rw [hfilter, hsplit, List.filter_append, List.filter_cons_of_neg (by simp [Session.key]),
    ← List.filter_append, List.filter_eq_self]
  intro k hk
  rw [decide_eq_true_iff]
  exact fun heq => haddrs.1 (List.mem_map.mpr ⟨k, hk, heq⟩)

/-- Who is not in the list any more was told, the session that leaves among them. -/
theorem Invariant.left_close (hinv : Invariant c) {xs ys : List (Nat × Nat × Int)}
    (hsplit : c.keys = xs ++ s.key :: ys) {id : Nat} (hid : id < c.created) :
    id ∈ (xs ++ ys).map (fun k => k.2.1) ↔
      (⟨id, .sessionDestory⟩ : Call) ∉ ⟨s.id, .sessionDestory⟩ :: c.log := by
  have hids := hinv.ids
  rw [hsplit, List.map_append, List.map_cons, List.nodup_middle, List.nodup_cons, ← List.map_append] at hids
  have hleft := hinv.left id hid
  rw [hsplit, List.map_append, List.map_cons, List.mem_append, List.mem_cons] at hleft
  rw [List.map_append, List.mem_append, List.mem_cons, not_or, ← hleft]
  have hnot : s.id ∉ xs.map (fun k => k.2.1) ++ ys.map fun k => k.2.1 := by
    rw [← List.map_append]
    exact hids.1
  rw [List.mem_append] at hnot
  constructor
  · intro hmem
    refine ⟨fun heq => hnot ?_, hmem.imp_right .inr⟩
    have hid : id = s.id := congrArg Call.session heq
    rwa [hid] at hmem
  · rintro ⟨hne, hmem | hmem | hmem⟩
    · exact .inl hmem
    · exact absurd (congrArg (Call.mk · PsEvent.sessionDestory) hmem) hne
    · exact .inr hmem

/-- A session of the list is told of its end, and leaves it. -/
theorem Invariant.closeSession (hinv : Invariant c) (hs : s.key ∈ c.keys) :
    Invariant (c.closeSession h s) ∧ (c.closeSession h s).listenFds = c.listenFds ∧
      ∀ addr ∈ c.addrs, addr ≠ s.addr → addr ∈ (c.closeSession h s).addrs := by
  have hfd : s.fd ≠ -1 := hinv.fds _ hs
  obtain ⟨xs, ys, hsplit⟩ := List.append_of_mem hs
  have hkeys := hinv.keys_close (h := h) hsplit
  have hsub : (xs ++ ys).Sublist c.keys := by
    rw [hsplit]
    exact List.Sublist.append_left (List.sublist_cons_self _ ys) xs
  have hlog : (c.closeSession h s).log = ⟨s.id, .sessionDestory⟩ :: c.log := by
    rw [Context.closeSession, Context.unlink, if_pos hfd]
    rfl
  have hcreated : (c.closeSession h s).created = c.created := by
    rw [Context.closeSession, Context.unlink, if_pos hfd]
    rfl
  refine ⟨⟨?_, ?_, ?_, ?_, ?_, ?_, ?_, ?_⟩, ?_, ?_⟩
  · have hcount : (c.closeSession h s).sessionCount = c.sessionCount - 1 := by
      rw [Context.closeSession, Context.unlink, if_pos hfd]
      rfl
    rw [hcount, hkeys, hinv.count, hsplit, List.length_append, List.length_append, List.length_cons]
    omega
  · rw [hkeys]
    exact hinv.addrs.sublist (hsub.map _)
  · rw [hkeys]
    exact hinv.ids.sublist (hsub.map _)
  · rw [hkeys]
    exact fun k hk => hinv.fds k (hsub.mem hk)
  · rw [hkeys, hcreated]
    exact fun k hk => hinv.created k (hsub.mem hk)
  · rw [hlog, hcreated]
    intro call hcall
    rcases List.mem_cons.mp hcall with rfl | hcall
    · exact hinv.created _ hs
    · exact hinv.called call hcall
  · rw [hkeys, hlog, hcreated]
    exact fun id hid => hinv.left_close hsplit hid
  · rw [hlog]
    exact ⟨hinv.not_destoryed hs, hinv.lawful⟩
  · rw [Context.closeSession, Context.unlink, if_pos hfd]
    rfl
  · intro addr haddr hne
    rw [addrs_eq, hsplit, List.map_append, List.map_cons, List.mem_append, List.mem_cons] at haddr
    rw [addrs_eq, hkeys, List.map_append, List.mem_append]
    rcases haddr with haddr | rfl | haddr
    · exact .inl haddr
    · exact absurd rfl hne
    · exact .inr haddr

/-- A step keeps the invariant and the sessions, except perhaps the one at an address. -/
structure Keeps (c c' : Context) (addr : Nat) : Prop where
  inv : Invariant c'
  listenFds : c'.listenFds = c.listenFds
  addrs : ∀ a ∈ c.addrs, a ≠ addr → a ∈ c'.addrs

theorem Keeps.refl (hinv : Invariant c) (addr : Nat) : Keeps c c addr := ⟨hinv, rfl, fun _ ha _ => ha⟩

theorem Keeps.trans {c'' : Context} {addr : Nat} (h₁ : Keeps c c' addr) (h₂ : Keeps c' c'' addr) :
    Keeps c c'' addr :=
  ⟨h₂.inv, h₂.listenFds.trans h₁.listenFds, fun a ha hne => h₂.addrs a (h₁.addrs a ha hne) hne⟩

theorem Invariant.keeps_close (hinv : Invariant c) (hs : s.key ∈ c.keys) :
    Keeps c (c.closeSession h s) s.addr :=
  have hclose := hinv.closeSession hs
  ⟨hclose.1, hclose.2.1, hclose.2.2⟩

theorem Invariant.keeps_backfun (hinv : Invariant c) (hs : s.key ∈ c.keys) (event : PsEvent)
    (hevent : event ≠ .sessionDestory) (addr : Nat) : Keeps c (c.backfun h s event).2 addr := by
  refine ⟨hinv.backfun hs hevent, rfl, fun a ha _ => ?_⟩
  rw [addrs_eq, keys_backfun, ← addrs_eq]
  exact ha

/-- A new session. -/
theorem Invariant.append {addr : Nat} {fd : Int} {flags : Flags} (hinv : Invariant c)
    (haddr : addr ∉ c.addrs) (hfd : fd ≠ -1) :
    Invariant { c with
      sessions := c.sessions ++ [⟨addr, c.created, fd, flags⟩]
      sessionCount := c.sessionCount + 1
      created := c.created + 1 } := by
  have hkeys : (c.sessions ++ [(⟨addr, c.created, fd, flags⟩ : Session)]).map Session.key =
      c.keys ++ [(addr, c.created, fd)] := List.map_append
  have hnew : c.created ∉ c.keys.map fun k => k.2.1 := by
    intro hmem
    obtain ⟨k, hk, heq⟩ := List.mem_map.mp hmem
    exact Nat.lt_irrefl _ (heq ▸ hinv.created k hk)
  rw [addrs_eq] at haddr
  refine ⟨?_, ?_, ?_, ?_, ?_, ?_, ?_, hinv.lawful⟩
  · show c.sessionCount + 1 = (List.map Session.key _).length
    rw [hkeys, hinv.count, List.length_append]
    rfl
  · show (List.map _ (List.map Session.key _)).Nodup
    rw [hkeys, List.map_append, List.map_singleton, (List.perm_append_singleton _ _).nodup_iff]
    exact List.nodup_cons.mpr ⟨haddr, hinv.addrs⟩
  · show (List.map _ (List.map Session.key _)).Nodup
    rw [hkeys, List.map_append, List.map_singleton, (List.perm_append_singleton _ _).nodup_iff]
    exact List.nodup_cons.mpr ⟨hnew, hinv.ids⟩
  · show ∀ k ∈ List.map Session.key _, _
    rw [hkeys]
    intro k hk
    rcases List.mem_append.mp hk with hk | hk
    · exact hinv.fds k hk
    · cases List.mem_singleton.mp hk
      exact hfd
  · show ∀ k ∈ List.map Session.key _, k.2.1 < c.created + 1
    rw [hkeys]
    intro k hk
    rcases List.mem_append.mp hk with hk | hk
    · exact Nat.lt_succ_of_lt (hinv.created k hk)
    · cases List.mem_singleton.mp hk
      exact Nat.lt_succ_self _
  · exact fun call hcall => Nat.lt_succ_of_lt (hinv.called call hcall)
  · show ∀ id < c.created + 1, id ∈ List.map _ (List.map Session.key _) ↔ _
    rw [hkeys, List.map_append]
    intro id hid
    -- an old session, or the new one, which nobody has called back
    rcases Nat.lt_succ_iff_lt_or_eq.mp hid with hid | rfl
    · rw [List.mem_append, ← hinv.left id hid]
      exact or_iff_left fun hmem => Nat.ne_of_lt hid (List.mem_singleton.mp hmem)
    · refine iff_of_true (List.mem_append_right _ (List.mem_singleton.mpr rfl)) fun hmem => ?_
      exact Nat.lt_irrefl _ (hinv.called _ hmem)

/-! ## One event -/

theorem Invariant.acceptSession {addr : Nat} (hinv : Invariant c) (haddr : addr ∉ c.addrs)
    (haccept : e.accept ≠ -1) (a : Nat) : Keeps c (c.acceptSession h e addr) a := by
  let s : Session := ⟨addr, c.created, e.accept, ⟨false, 0, 0⟩⟩
  let c₁ : Context := { c with
    sessions := c.sessions ++ [s]
    sessionCount := c.sessionCount + 1
    created := c.created + 1 }
  have hinv₁ : Invariant c₁ := hinv.append haddr haccept
  have hs : s.key ∈ c₁.keys := List.mem_map_of_mem (List.mem_append_right _ (List.mem_singleton.mpr rfl))
  -- the memory was not in use, so no session of the list is at its address
  have hold : ∀ b ∈ c.addrs, b ∈ c₁.addrs ∧ b ≠ addr := by
    intro b hb
    refine ⟨?_, fun heq => haddr (heq ▸ hb)⟩
    obtain ⟨t, ht, rfl⟩ := List.mem_map.mp hb
    exact List.mem_map_of_mem (List.mem_append_left _ ht)
  have hcreate := hinv₁.keeps_backfun (h := h) hs .sessionCreate nofun addr
  have hs₂ : s.key ∈ (c₁.backfun h s .sessionCreate).2.keys := by rwa [keys_backfun]
  have haccepted := hcreate.trans (hcreate.inv.keeps_backfun (h := h) hs₂ .accept nofun addr)
  have hs₃ : s.key ∈ ((c₁.backfun h s .sessionCreate).2.backfun h s .accept).2.keys := by
    rwa [keys_backfun]
  have hall : Keeps c₁ (c.acceptSession h e addr) addr := by
    simp only [Context.acceptSession]
    split
    · exact hcreate.trans (hcreate.inv.keeps_close hs₂)
    · split
      · exact haccepted.trans (haccepted.inv.keeps_close hs₃)
      · exact haccepted
  refine ⟨hall.inv, hall.listenFds, fun b hb _ => ?_⟩
  obtain ⟨hmem, hne⟩ := hold b hb
  exact hall.addrs b hmem hne

/-- The event of a listening socket, when nothing fails. -/
theorem Invariant.listenHandle {fds : List Int} (hinv : Invariant c) (hmem : e.fd ∈ fds)
    (hok : (e.epollin || e.epollpri) = true → e.accept ≠ -1 ∧ (e.malloc c.addrs).isSome) :
    ∃ c', c.listenHandle h e fds = some c' ∧ ∀ a, Keeps c c' a := by
  induction fds with
  | nil => cases hmem
  | cons fd fds ih =>
    rw [Context.listenHandle]
    by_cases hfd : e.fd = fd
    · rw [if_pos hfd]
      by_cases hready : (e.epollin || e.epollpri) = true
      · obtain ⟨haccept, hmalloc⟩ := hok hready
        obtain ⟨⟨addr, haddr⟩, hsome⟩ := Option.isSome_iff_exists.mp hmalloc
        simp only [if_pos hready, if_neg haccept, hsome]
        exact ⟨_, rfl, hinv.acceptSession haddr haccept⟩
      · rw [if_neg hready]
        exact ⟨c, rfl, .refl hinv⟩
    · rw [if_neg hfd]
      exact ih ((List.mem_cons.mp hmem).resolve_left hfd)

theorem listenHandle_eq_none {fds : List Int} (hmem : e.fd ∉ fds) : c.listenHandle h e fds = none := by
  induction fds with
  | nil => rfl
  | cons fd fds ih =>
    rw [List.mem_cons, not_or] at hmem
    rw [Context.listenHandle, if_neg hmem.1, ih hmem.2]

theorem Invariant.errorHandle (hinv : Invariant c) (hs : s.key ∈ c.keys) :
    Keeps c (c.errorHandle h e s) s.addr := by
  rw [Context.errorHandle]
  split
  · have hclose := hinv.keeps_backfun (h := h) hs .close nofun s.addr
    exact hclose.trans (hclose.inv.keeps_close (by rwa [keys_backfun]))
  · exact .refl hinv _

theorem Invariant.readHandle (hinv : Invariant c) (hs : s.key ∈ c.keys) :
    Keeps c (c.readHandle h e s).2 s.addr := by
  rw [Context.readHandle]
  split
  · split
    · split
      · exact .refl hinv _
      · exact hinv.errorHandle hs
    · have hrecv := hinv.keeps_backfun (h := h) hs .recv nofun s.addr
      have hs' : s.key ∈ (c.backfun h s .recv).2.keys := by rwa [keys_backfun]
      simp only
      split
      · exact hrecv.trans (hrecv.inv.keeps_close hs')
      · exact hrecv.trans (hrecv.inv.errorHandle hs')
  · exact hinv.errorHandle hs

theorem Invariant.sessionHandle (hinv : Invariant c) (hs : s.key ∈ c.keys) :
    Keeps c (c.sessionHandle h e s).2 s.addr := by
  rw [Context.sessionHandle]
  split
  · have hwrite := hinv.keeps_backfun (h := h) hs .write nofun s.addr
    have hs' : s.key ∈ (c.backfun h s .write).2.keys := by rwa [keys_backfun]
    simp only
    split
    · exact hwrite.trans (hwrite.inv.keeps_close hs')
    · exact hwrite.trans (hwrite.inv.readHandle hs')
  · exact hinv.readHandle hs

/-- A pointer to a session of the list. -/
theorem at_of_mem {addr : Nat} (haddr : addr ∈ c.addrs) :
    ∃ s ∈ c.sessions, s.addr = addr ∧ c.at_ addr = some s := by
  obtain ⟨t, ht, heq⟩ := List.mem_map.mp haddr
  cases hfind : c.sessions.find? fun s => s.addr = addr with
  | none => exact absurd heq (by simpa using List.find?_eq_none.mp hfind t ht)
  | some s =>
    refine ⟨s, List.mem_of_find?_eq_some hfind, by simpa using List.find?_some hfind, ?_⟩
    rw [Context.at_, List.find?_append, hfind]
    rfl

/-! ## One step -/

/-- What is still to be done in the pass: the loops over the sessions go over sessions of the list, and so do the
events. -/
def Pending (c : Context) : Phase → Prop
  | .outside => True
  | .async todo => todo.Nodup ∧ ∀ addr ∈ todo, addr ∈ c.addrs
  | .timers _ todo batch => (todo.Nodup ∧ ∀ addr ∈ todo, addr ∈ c.addrs) ∧ Delivered c batch
  | .events batch => Delivered c batch

/-- The events of the sessions that are left. -/
theorem Delivered.keeps {batch : List Event} {addr : Nat} (hbatch : Delivered c batch)
    (hkeeps : Keeps c c' addr) (haddr : addr ∉ sessionData c.listenFds batch) : Delivered c' batch := by
  have hfds := hkeeps.listenFds
  refine ⟨?_, ?_⟩
  · rw [hfds]
    exact fun a ha => hkeeps.addrs a (hbatch.mem a ha) fun heq => haddr (heq ▸ ha)
  · rw [hfds]
    exact hbatch.nodup

theorem Delivered.keeps_all {batch : List Event} (hbatch : Delivered c batch)
    (hkeeps : ∀ addr, Keeps c c' addr) : Delivered c' batch := by
  have hfds := (hkeeps 0).listenFds
  refine ⟨?_, ?_⟩
  · rw [hfds]
    exact fun a ha => (hkeeps (a + 1)).addrs a (hbatch.mem a ha) (Nat.ne_of_lt (Nat.lt_succ_self a))
  · rw [hfds]
    exact hbatch.nodup

theorem todo_keeps {addr : Nat} {todo : List Nat} (hkeeps : Keeps c c' addr)
    (htodo : (addr :: todo).Nodup ∧ ∀ a ∈ addr :: todo, a ∈ c.addrs) :
    todo.Nodup ∧ ∀ a ∈ todo, a ∈ c'.addrs := by
  obtain ⟨hnot, hnodup⟩ := List.nodup_cons.mp htodo.1
  exact ⟨hnodup, fun a ha =>
    hkeeps.addrs a (htodo.2 a (List.mem_cons_of_mem addr ha)) fun heq => hnot (heq ▸ ha)⟩

theorem Invariant.nodup_addrs (hinv : Invariant c) : c.addrs.Nodup := by
  rw [addrs_eq]
  exact hinv.addrs

theorem Invariant.asyncHandle (hinv : Invariant c) (hs : s ∈ c.sessions) :
    Keeps c (c.asyncHandle h s) s.addr := by
  rw [Context.asyncHandle]
  split
  · exact hinv.keeps_close (List.mem_map_of_mem hs)
  · exact .refl hinv _

/-- A timer: only a session whose callback asks for it is closed. -/
theorem Invariant.timerHandle (hinv : Invariant c) (hs : s ∈ c.sessions) (time : Int) :
    Keeps c (c.timerHandle h time s) s.addr ∧
      (¬(s.Expired time ∧ (h (⟨s.id, .timerout⟩ :: c.log)).ret = -1) →
        ∀ addr, Keeps c (c.timerHandle h time s) addr) := by
  rw [Context.timerHandle]
  split
  · next hexpired =>
    let flags : Session → Flags := fun t =>
      if t.addr = s.addr then { t.flags with intervalStart := 0, interval := 0 } else t.flags
    have htouch (addr : Nat) : Keeps c (c.touch flags) addr := by
      refine ⟨hinv.touch flags, rfl, fun a ha _ => ?_⟩
      rw [addrs_eq, keys_touch, ← addrs_eq]
      exact ha
    have hs₁ : s.key ∈ (c.touch flags).keys := by
      rw [keys_touch]
      exact List.mem_map_of_mem hs
    have hs₂ : s.key ∈ ((c.touch flags).backfun h s .timerout).2.keys := by rwa [keys_backfun]
    have hback (addr : Nat) : Keeps c ((c.touch flags).backfun h s .timerout).2 addr :=
      (htouch addr).trans ((htouch addr).inv.keeps_backfun hs₁ .timerout nofun addr)
    simp only
    split
    · next hret =>
      refine ⟨(hback _).trans ((hback s.addr).inv.keeps_close hs₂), fun hnot => ?_⟩
      exact absurd ⟨hexpired, hret⟩ hnot
    · exact ⟨hback _, fun _ => hback⟩
  · exact ⟨.refl hinv _, fun _ => .refl hinv⟩

/-- One event, when nothing fails: at most the session of the event is gone. -/
theorem Invariant.eventHandle {batch : List Event} (hinv : Invariant c)
    (hbatch : Delivered c (e :: batch))
    (hok : e.fd ∈ c.listenFds → (e.epollin || e.epollpri) = true →
      e.accept ≠ -1 ∧ (e.malloc c.addrs).isSome) :
    ∃ more c', c.eventHandle h e = some (more, c') ∧ Invariant c' ∧ Delivered c' batch := by
  rw [Context.eventHandle]
  by_cases hfd : e.fd ∈ c.listenFds
  · have hdata : sessionData c.listenFds (e :: batch) = sessionData c.listenFds batch := by
      rw [sessionData, List.filter_cons_of_neg (by simpa using hfd)]
      rfl
    have hrest : Delivered c batch := ⟨hdata ▸ hbatch.mem, hdata ▸ hbatch.nodup⟩
    obtain ⟨c', hc', hkeeps⟩ := hinv.listenHandle (h := h) hfd (hok hfd)
    rw [hc']
    exact ⟨true, c', rfl, (hkeeps 0).inv, hrest.keeps_all hkeeps⟩
  · have hdata : sessionData c.listenFds (e :: batch) = e.data :: sessionData c.listenFds batch := by
      rw [sessionData, List.filter_cons_of_pos (by simpa using hfd)]
      rfl
    have hmem := hbatch.mem
    have hnodup := hbatch.nodup
    rw [hdata] at hmem hnodup
    obtain ⟨s, hs, haddr, hat⟩ := at_of_mem (hmem e.data List.mem_cons_self)
    have hkeeps := hinv.sessionHandle (h := h) (e := e) (List.mem_map_of_mem hs)
    rw [haddr] at hkeeps
    rw [listenHandle_eq_none hfd, hat]
    -- the session has one event in the batch, so the others may lose it
    have hrest : Delivered c batch :=
      ⟨fun a ha => hmem a (List.mem_cons_of_mem _ ha), (List.nodup_cons.mp hnodup).2⟩
    exact ⟨_, _, rfl, hkeeps.inv, hrest.keeps hkeeps (List.nodup_cons.mp hnodup).1⟩

/-- The service with what is still to be done. -/
structure Sound (v : Service) : Prop where
  inv : Invariant v.context
  pending : Pending v.context v.phase

theorem Sound.step {v : Service} {act : Act} (hv : Sound v) (henabled : Enabled v act)
    (hcareful : Careful h v act) : ∃ v', step h v act = some v' ∧ Sound v' := by
  obtain ⟨c, phase⟩ := v
  obtain ⟨hinv, hpending⟩ := hv
  cases act with
  | touch flags =>
    obtain rfl : phase = .outside := henabled
    exact ⟨_, rfl, hinv.touch flags, trivial⟩
  | loop =>
    obtain rfl : phase = .outside := henabled
    simp only [ProtoService.step]
    split
    · exact ⟨_, rfl, hinv, trivial⟩
    · exact ⟨_, rfl, hinv, hinv.nodup_addrs, fun _ => id⟩
  | async =>
    obtain ⟨addr, todo, rfl⟩ : ∃ addr todo, phase = .async (addr :: todo) := henabled
    obtain ⟨s, hs, rfl, hat⟩ := at_of_mem (hpending.2 addr List.mem_cons_self)
    have hkeeps := hinv.asyncHandle (h := h) hs
    simp only [ProtoService.step, hat, Option.map_some]
    exact ⟨_, rfl, hkeeps.inv, todo_keeps hkeeps hpending⟩
  | epollWait time events =>
    obtain ⟨rfl, hevents⟩ : phase = .async [] ∧ ∀ batch ∈ events, Delivered c batch := henabled
    cases events with
    -- an error of `epoll_wait` ends the pass
    | none => exact ⟨_, rfl, hinv, trivial⟩
    | some batch => exact ⟨_, rfl, hinv, ⟨hinv.nodup_addrs, fun _ => id⟩, hevents batch rfl⟩
  | timer =>
    obtain ⟨time, todo, batch, rfl⟩ : ∃ time todo batch, phase = .timers time todo batch := henabled
    obtain ⟨htodo, hbatch⟩ := hpending
    cases todo with
    | nil => exact ⟨_, rfl, hinv, hbatch⟩
    | cons addr todo =>
      obtain ⟨s, hs, rfl, hat⟩ := at_of_mem (htodo.2 addr List.mem_cons_self)
      obtain ⟨hkeeps, hall⟩ := hinv.timerHandle (h := h) hs time
      simp only [ProtoService.step, hat, Option.map_some]
      refine ⟨_, rfl, hkeeps.inv, todo_keeps hkeeps htodo, ?_⟩
      -- only if the callback asks for it does the session leave the list
      by_cases hclosed : s.Expired time ∧ (h (⟨s.id, .timerout⟩ :: c.log)).ret = -1
      · exact hbatch.keeps hkeeps (hcareful s hs rfl hclosed.1 hclosed.2)
      · exact hbatch.keeps_all (hall hclosed)
  | event =>
    obtain ⟨batch, rfl⟩ : ∃ batch, phase = .events batch := henabled
    cases batch with
    | nil => exact ⟨_, rfl, hinv, trivial⟩
    | cons e batch =>
      obtain ⟨more, c', hc', hinv', hbatch⟩ := hinv.eventHandle (h := h) hpending hcareful
      simp only [ProtoService.step, hc', Option.map_some]
      cases more with
      | true => exact ⟨_, rfl, hinv', hbatch⟩
      | false => exact ⟨_, rfl, hinv', trivial⟩

/-! ## Every run -/

theorem invariant_init (listenFds : List Int) (sfd0 : Int) : Invariant (Context.init listenFds sfd0) where
  count := rfl
  addrs := List.nodup_nil
  ids := List.nodup_nil
  fds := nofun
  created := nofun
  called := nofun
  left := nofun
  lawful := trivial

/-- A session is told of its end once. -/
theorem Lawful.count_le {log : List Call} (hlog : Lawful log) (id : Nat) :
    log.count ⟨id, .sessionDestory⟩ ≤ 1 := by
  induction log with
  | nil => exact Nat.zero_le 1
  | cons call log ih =>
    rw [List.count_cons]
    split
    · next heq =>
      obtain rfl := eq_of_beq heq
      exact Nat.le_of_eq (congrArg (· + 1) (List.count_eq_zero_of_not_mem hlog.1))
    · exact ih hlog.2

theorem Invariant.kept (hinv : Invariant c) : Kept c where
  count := by rw [hinv.count, Context.keys, List.length_map]
  left := fun id hid => by
    have hleft := hinv.left id hid
    rwa [Context.keys, List.map_map] at hleft
  lawful := hinv.lawful
  once := hinv.lawful.count_le

/-- **The books of the sessions are kept in every run in which the timer closes no session that has an event, and no
connection is lost.** The loop never follows a pointer to a session that is gone. -/
theorem kept_of_careful (h : Handler) (listenFds : List Int) (sfd0 : Int) {acts : List Act}
    (hok : Meets (step h) (fun v act => Enabled v act ∧ Careful h v act)
      ⟨Context.init listenFds sfd0, .outside⟩ acts) :
    ∃ v, run (step h) ⟨Context.init listenFds sfd0, .outside⟩ acts = some v ∧ Kept v.context := by
  have hstep : ∀ v act, Sound v → Enabled v act ∧ Careful h v act → ∃ v', step h v act = some v' ∧ Sound v' :=
    fun _ _ hv hact => hv.step hact.1 hact.2
  have hinit : Sound ⟨Context.init listenFds sfd0, .outside⟩ := ⟨invariant_init listenFds sfd0, trivial⟩
  obtain ⟨v, hrun, hv⟩ := run_of_meets hstep hinit hok
  exact ⟨v, hrun, hv.inv.kept⟩

/-- An event that is ready for reading. On a listening socket it brings the socket 7, and memory at 100 if that is
not in use. -/
def readable (data : Nat) (accept : Int) : Event where
  data := data
  epollin := true
  epollpri := false
  epollout := false
  epollerr := false
  epollhup := false
  accept := accept
  malloc := fun used => if hfree : 100 ∉ used then some ⟨100, hfree⟩ else none
  epollCtl := 0
  sfddata := 0

/-- A session that starts a timer of ten milliseconds when it is accepted, and asks to be closed when it has run out
or when there is something to read. -/
def impatient : Handler := fun log =>
  match log.head? with
  | some ⟨_, .accept⟩ => ⟨0, fun _ => ⟨false, 1, 10⟩⟩
  | some ⟨_, .timerout⟩ | some ⟨_, .recv⟩ => ⟨-1, Session.flags⟩
  | _ => ⟨0, Session.flags⟩

/-- A session is accepted on the socket 3. -/
def acceptPass : List Act := [.loop, .epollWait 0 (some [readable 3 7]), .timer, .event, .event]

/-- A session comes, and goes when there is something to read. -/
theorem kept_of_careful_session :
    ∃ v, run (step impatient) ⟨Context.init [3] 5, .outside⟩
        (acceptPass ++ [.loop, .async, .epollWait 5 (some [readable 100 7]), .timer, .timer, .event]) =
          some v ∧ Kept v.context := by
  apply kept_of_careful
  refine ⟨⟨rfl, trivial⟩, ⟨⟨rfl, ?_⟩, trivial⟩, ⟨⟨_, _, _, rfl⟩, trivial⟩, ⟨⟨_, rfl⟩, ?_⟩,
    ⟨⟨_, rfl⟩, trivial⟩, ⟨rfl, trivial⟩, ⟨⟨_, _, rfl⟩, trivial⟩, ⟨⟨rfl, ?_⟩, trivial⟩,
    ⟨⟨_, _, _, rfl⟩, ?_⟩, ⟨⟨_, _, _, rfl⟩, trivial⟩, ⟨⟨_, rfl⟩, ?_⟩, trivial⟩
  · rintro batch ⟨⟩
    exact ⟨by decide, by decide⟩
  · exact fun _ _ => ⟨by decide, rfl⟩
  · rintro batch ⟨⟩
    exact ⟨by decide, by decide⟩
  · intro s hs _ hexpired
    cases List.mem_singleton.mp hs
    exact absurd hexpired (by decide)
  · exact fun hfd => absurd hfd (by decide)

/-- The timer closes the session, and its event calls it back. And when `accept` fails, the listening socket is taken
for a session. -/
theorem called_back_after_end :
    (∃ v, run (step impatient) ⟨Context.init [3] 5, .outside⟩
        (acceptPass ++ [.loop, .async, .epollWait 100 (some [readable 100 7]), .timer, .timer, .event]) =
          some v ∧ v.context.log.take 3 = [⟨0, .sessionDestory⟩, ⟨0, .recv⟩, ⟨0, .sessionDestory⟩] ∧
        ¬Kept v.context) ∧
      run (step impatient) ⟨Context.init [3] 5, .outside⟩
        [.loop, .epollWait 0 (some [readable 3 (-1)]), .timer, .event] = none := by
  refine ⟨⟨_, rfl, rfl, fun hkept => ?_⟩, rfl⟩
  exact absurd (hkept.once 0) (by decide)

end ProgrammingPath.ProtoService
