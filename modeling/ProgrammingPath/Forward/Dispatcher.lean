import ProgrammingPath.Lib.Run

/-!
# Sessions of the UDP forwarder

`forward_server_dispatcher` in `socket_forward.c` listens on the sockets of all configured servers. A
datagram on one of them belongs to a session, which has a socket of its own towards the destination of
the server; what comes back on that socket goes to the client of the session. There is one list of
sessions for all servers, and a session is looked up by the address of the client alone.
-/

namespace ProgrammingPath.Forward

open ProgrammingPath.Lib

/-! ## Servers and sessions -/

/-- `sockaddr_in`. `inet_ntop` writes different addresses differently, so comparing the texts is
comparing these. -/
structure Addr where
  ip : UInt32
  port : UInt16
  deriving DecidableEq, Repr

/-- Which of the two streams of a session a handler got its bytes from. -/
inductive From
  | src
  | dst
  deriving DecidableEq, Repr

/-- A call of `sock_stream_send` by a handler: to `streamout`, or back to `streamin`. -/
inductive Output
  | out (bytes : List UInt8)
  | back (bytes : List UInt8)
  deriving DecidableEq, Repr

/-- A `forward_server` for UDP. `forwardHandle` is its function pointer; what a handler keeps in the
two streams of a session is of type `σ`. -/
structure ForwardServer (σ : Type) where
  fDst : Addr
  forwardHandle : Option (σ → From → List UInt8 → σ × List Output)

/-- A `forward_session`, with what of its two streams the dispatcher uses. Server sockets are of type
`ι`. -/
structure UdpSession (ι σ : Type) where
  /-- the pointer, by which an event on the socket of the session is recognised -/
  id : Nat
  forwardSer : ι
  srcFd : ι
  srcRemote : Addr
  dstRemote : Addr
  timerStart : Nat
  kept : σ

/-- What the dispatcher did. -/
inductive Entry (ι : Type)
  /-- a session was made for a datagram of a client on a server socket -/
  | opened (id : Nat) (server : ι) (client : Addr)
  /-- for a datagram on a server socket, bytes were sent on the socket of a session -/
  | forwarded (server : ι) (client : Addr) (id : Nat) (dest : Addr) (bytes : List UInt8)
  /-- for a datagram on the socket of a session, bytes were sent on a server socket -/
  | replied (id : Nat) (server : ι) (dest : Addr) (bytes : List UInt8)
  /-- a handler answered the sender -/
  | refused (id : Nat) (dest : Addr) (bytes : List UInt8)
  deriving DecidableEq, Repr

structure Dispatcher (ι σ : Type) where
  /-- `list_fsession_udp` -/
  sessions : List (UdpSession ι σ)
  nextId : Nat
  log : List (Entry ι)
  crashed : Bool

def Dispatcher.init {ι σ : Type} : Dispatcher ι σ := ⟨[], 0, [], false⟩

section

variable {ι σ : Type}

/-- One hour, in milliseconds. -/
def sessionInterval : Nat := 1000 * 3600

/-- `timer_expired`. -/
def timerExpired (now : Nat) (sess : UdpSession ι σ) : Bool :=
  sessionInterval < now - sess.timerStart + 1

/-- The bytes that fit into `buff`. -/
def recvBuff (bytes : List UInt8) : List UInt8 := bytes.take (1024 * 60)

/-- The handler of a server. Without one `forward_session_handle_udp` is called, which does nothing. -/
def callHandle (server : ForwardServer σ) (kept : σ) (from' : From) (bytes : List UInt8) :
    σ × List Output :=
  match server.forwardHandle with
  | some forwardHandle => forwardHandle kept from' bytes
  | none => (kept, [])

/-- The session of a client. -/
def findSession (sessions : List (UdpSession ι σ)) (client : Addr) : Option (UdpSession ι σ) :=
  sessions.find? fun sess => sess.srcRemote = client

/-- Put back a session after its handler. -/
def keep (sess : UdpSession ι σ) (sessions : List (UdpSession ι σ)) : List (UdpSession ι σ) :=
  sessions.map fun other => if other.id = sess.id then sess else other

/-- A datagram of a client in its session. -/
def forwardIn (conf : ι → ForwardServer σ) (d : Dispatcher ι σ) (server : ι) (client : Addr)
    (sess : UdpSession ι σ) (bytes : List UInt8) : Dispatcher ι σ :=
  let (kept, outputs) := callHandle (conf sess.forwardSer) sess.kept .src bytes
  { d with
    sessions := keep { sess with kept := kept } d.sessions
    log := d.log ++ outputs.map fun
      | .out sent => .forwarded server client sess.id sess.dstRemote sent
      | .back sent => .refused sess.id sess.srcRemote sent }

/-- A new session for a client, bound to the destination of the server. -/
def newSession (conf : ι → ForwardServer σ) (fresh : σ) (d : Dispatcher ι σ) (server : ι)
    (client : Addr) (now : Nat) : UdpSession ι σ :=
  ⟨d.nextId, server, server, client, (conf server).fDst, now, fresh⟩

inductive DispatchAct (ι : Type)
  /-- `recvfrom` on a server socket; `bound` is whether a socket for a new session can be had -/
  | datagram (server : ι) (client : Addr) (bytes : List UInt8) (bound : Bool) (now : Nat)
  /-- `recvfrom` on the socket of a session -/
  | reply (id : Nat) (sender : Addr) (bytes : List UInt8) (now : Nat)
  /-- `epoll_wait` returns without an event -/
  | idle (now : Nat)

/-- `forward_server_dispatcher`, one event at a time. Without a socket for a new session `sess` is
`NULL` when the datagram is copied into it. -/
def dispatch (conf : ι → ForwardServer σ) (fresh : σ) (d : Dispatcher ι σ) :
    DispatchAct ι → Option (Dispatcher ι σ)
  | .datagram server client bytes bound now =>
    if d.crashed then none
    else if bytes = [] then some d
    else
      match findSession d.sessions client with
      | some sess => some (forwardIn conf d server client sess (recvBuff bytes))
      | none =>
        if bound then
          let sess := newSession conf fresh d server client now
          let d := { d with
            sessions := sess :: d.sessions
            nextId := d.nextId + 1
            log := d.log ++ [.opened sess.id server client] }
          some (forwardIn conf d server client sess (recvBuff bytes))
        else some { d with crashed := true }
  | .reply id sender bytes now =>
    if d.crashed then none
    else
      match d.sessions.find? fun sess => sess.id = id with
      | none => none
      | some sess =>
        if sender = sess.dstRemote then
          let (kept, outputs) := callHandle (conf sess.forwardSer) sess.kept .dst (recvBuff bytes)
          some { d with
            sessions := keep { sess with kept := kept, timerStart := now } d.sessions
            log := d.log ++ outputs.map fun
              | .out sent => .replied sess.id sess.srcFd sess.srcRemote sent
              | .back sent => .refused sess.id sess.dstRemote sent }
        else some d
  | .idle now =>
    if d.crashed then none
    else some { d with sessions := d.sessions.filter fun sess => !timerExpired now sess }

/-! ## Where a session leads -/

/-- A session leads to the destination of its server, and was made for its client on its socket. -/
def Belongs (conf : ι → ForwardServer σ) (log : List (Entry ι)) (sess : UdpSession ι σ) : Prop :=
  sess.dstRemote = (conf sess.forwardSer).fDst ∧
    Entry.opened sess.id sess.srcFd sess.srcRemote ∈ log

/-- Forwarded bytes went to the destination of the server socket they came on, and replies from the
server socket and to the client of the datagram that made their session. -/
def Routed (conf : ι → ForwardServer σ) (log : List (Entry ι)) : Entry ι → Prop
  | .forwarded server _ _ dest _ => dest = (conf server).fDst
  | .replied id server dest _ => Entry.opened id server dest ∈ log
  | _ => True

/-- All sessions belong, and all was routed. -/
def RoutesAll (conf : ι → ForwardServer σ) (d : Dispatcher ι σ) : Prop :=
  (∀ sess ∈ d.sessions, Belongs conf d.log sess) ∧ ∀ e ∈ d.log, Routed conf d.log e

/-- A client that already has a session has it with a server of the same destination. -/
def SameDestination (conf : ι → ForwardServer σ) (d : Dispatcher ι σ) : DispatchAct ι → Prop
  | .datagram server client _ _ _ => ∀ sess ∈ findSession d.sessions client,
    (conf sess.forwardSer).fDst = (conf server).fDst
  | _ => True

variable {conf : ι → ForwardServer σ} {fresh : σ} {d d' : Dispatcher ι σ}

theorem Belongs.mono {log more : List (Entry ι)} {sess : UdpSession ι σ}
    (h : Belongs conf log sess) : Belongs conf (log ++ more) sess :=
  ⟨h.1, List.mem_append_left _ h.2⟩

theorem Routed.mono {log more : List (Entry ι)} {e : Entry ι} (h : Routed conf log e) :
    Routed conf (log ++ more) e := by
  cases e with
  | replied id server dest bytes => exact List.mem_append_left _ h
  | opened | forwarded | refused => exact h

/-- A handler changes neither where its session leads nor whom it was made for. -/
theorem belongs_keep {log : List (Entry ι)} {sess : UdpSession ι σ} {sessions : List (UdpSession ι σ)}
    (hall : ∀ s ∈ sessions, Belongs conf log s) (hsess : Belongs conf log sess) :
    ∀ s ∈ keep sess sessions, Belongs conf log s := by
  intro s hs
  obtain ⟨other, hother, rfl⟩ := List.mem_map.mp hs
  split
  · exact hsess
  · exact hall other hother

/-- What a handler sends is routed if the session belongs to where its bytes came from. -/
theorem routesAll_handled {outputs : List Output} {sess : UdpSession ι σ} {entry : Output → Entry ι}
    (h : RoutesAll conf d) (hsess : Belongs conf d.log sess)
    (hentry : ∀ o ∈ outputs, Routed conf d.log (entry o)) :
    RoutesAll conf { d with
      sessions := keep sess d.sessions
      log := d.log ++ outputs.map entry } := by
  refine ⟨fun s hs => (belongs_keep h.1 hsess s hs).mono, fun e he => ?_⟩
  rcases List.mem_append.mp he with he | he
  · exact (h.2 e he).mono
  · obtain ⟨o, ho, rfl⟩ := List.mem_map.mp he
    exact (hentry o ho).mono

/-- A datagram in a session with the destination of its server. -/
theorem routesAll_forwardIn {server : ι} {client : Addr} {sess : UdpSession ι σ}
    {bytes : List UInt8} (h : RoutesAll conf d) (hsess : Belongs conf d.log sess)
    (hsame : (conf sess.forwardSer).fDst = (conf server).fDst) :
    RoutesAll conf (forwardIn conf d server client sess bytes) := by
  apply routesAll_handled h
  · exact hsess
  · intro o _
    cases o with
    | out sent => exact hsess.1.trans hsame
    | back sent => trivial

theorem routesAll_step (d : Dispatcher ι σ) (a : DispatchAct ι) (d' : Dispatcher ι σ)
    (h : RoutesAll conf d) (hok : SameDestination conf d a) (hstep : dispatch conf fresh d a = some d') :
    RoutesAll conf d' := by
  cases a with
  | datagram server client bytes bound now =>
    simp only [dispatch] at hstep
    split at hstep
    · cases hstep
    · split at hstep
      · cases hstep
        exact h
      · split at hstep
        · next sess hfind =>
          cases hstep
          have hmem : sess ∈ d.sessions := List.mem_of_find?_eq_some hfind
          exact routesAll_forwardIn h (h.1 sess hmem) (hok sess hfind)
        · split at hstep
          · cases hstep
            have hopened : Entry.opened d.nextId server client ∈
                d.log ++ [Entry.opened d.nextId server client] :=
              List.mem_append_right _ (List.mem_singleton_self _)
            apply routesAll_forwardIn _ ⟨rfl, hopened⟩ rfl
            refine ⟨fun s hs => ?_, fun e he => ?_⟩
            · rcases List.mem_cons.mp hs with rfl | hs
              · exact ⟨rfl, hopened⟩
              · exact (h.1 s hs).mono
            · rcases List.mem_append.mp he with he | he
              · exact (h.2 e he).mono
              · rw [List.mem_singleton.mp he]
                trivial
          · cases hstep
            exact h
  | reply id sender bytes now =>
    simp only [dispatch] at hstep
    split at hstep
    · cases hstep
    · split at hstep
      · cases hstep
      · next sess hfind =>
        have hsess := h.1 sess (List.mem_of_find?_eq_some hfind)
        split at hstep
        · cases hstep
          apply routesAll_handled h
          · exact hsess
          · intro o _
            cases o with
            | out sent => exact hsess.2
            | back sent => trivial
        · cases hstep
          exact h
  | idle now =>
    simp only [dispatch] at hstep
    split at hstep
    · cases hstep
    · cases hstep
      exact ⟨fun s hs => h.1 s (List.mem_of_mem_filter hs), h.2⟩

theorem routesAll_init : RoutesAll conf (Dispatcher.init : Dispatcher ι σ) :=
  ⟨fun _ hs => absurd hs List.not_mem_nil, fun _ he => absurd he List.not_mem_nil⟩

/-- Any number of servers, clients and events: if no client with a session sends to a server with
another destination, every datagram goes to the destination of the server socket it came on, and every
reply comes from the server socket and goes to the client of the datagram that made its session. -/
theorem routed_of_sameDestination (conf : ι → ForwardServer σ) (fresh : σ)
    (acts : List (DispatchAct ι)) (d : Dispatcher ι σ)
    (hok : Meets (dispatch conf fresh) (SameDestination conf) Dispatcher.init acts)
    (hrun : run (dispatch conf fresh) Dispatcher.init acts = some d) :
    ∀ e ∈ d.log, Routed conf d.log e := by
  have hroutes : RoutesAll conf d := run_invariant routesAll_step routesAll_init hok hrun
  exact hroutes.2

end

/-- Two servers with different destinations that pass everything on. -/
def twoServers : Bool → ForwardServer Unit
  | false => ⟨⟨10, 5060⟩, some fun kept _ bytes => (kept, [.out bytes])⟩
  | true => ⟨⟨20, 5060⟩, some fun kept _ bytes => (kept, [.out bytes])⟩

/-- Two clients, one on each server, and a reply to each. -/
def twoClients : List (DispatchAct Bool) :=
  [.datagram false ⟨1, 7⟩ [1] true 0, .datagram true ⟨2, 7⟩ [2] true 0,
    .reply 1 ⟨20, 5060⟩ [3] 5, .reply 0 ⟨10, 5060⟩ [4] 5]

theorem routed_of_sameDestination_two :
    ∃ d, run (dispatch twoServers ()) Dispatcher.init twoClients = some d ∧ d.log.length = 6 ∧
      ∀ e ∈ d.log, Routed twoServers d.log e := by
  have hrun : (run (dispatch twoServers ()) Dispatcher.init twoClients).any
      (fun d => decide (d.log.length = 6)) = true := by
    decide +kernel
  obtain ⟨d, hd, hlen⟩ := (Option.any_eq_true _ _).mp hrun
  refine ⟨d, hd, of_decide_eq_true hlen,
    routed_of_sameDestination twoServers () twoClients d ?_ hd⟩
  refine ⟨fun sess hsess => ?_, fun sess hsess => ?_, trivial, trivial, trivial⟩
  · cases hsess
  · cases hsess

/-- One client that sends to both servers from the same port: its second datagram, on the second
server, is sent to the destination of the first one. -/
theorem second_server_misrouted :
    ∃ d, run (dispatch twoServers ()) Dispatcher.init
        [.datagram false ⟨1, 7⟩ [1] true 0, .datagram true ⟨1, 7⟩ [2] true 0] = some d ∧
      Entry.forwarded true ⟨1, 7⟩ 0 ⟨10, 5060⟩ [2] ∈ d.log ∧ (twoServers true).fDst = ⟨20, 5060⟩ ∧
      ¬∀ e ∈ d.log, Routed twoServers d.log e := by
  have hrun : (run (dispatch twoServers ()) Dispatcher.init
      [.datagram false ⟨1, 7⟩ [1] true 0, .datagram true ⟨1, 7⟩ [2] true 0]).any
      (fun d => decide (Entry.forwarded true ⟨1, 7⟩ 0 ⟨10, 5060⟩ [2] ∈ d.log)) = true := by
    decide +kernel
  obtain ⟨d, hd, hmem⟩ := (Option.any_eq_true _ _).mp hrun
  have hmem := of_decide_eq_true hmem
  refine ⟨d, hd, hmem, rfl, fun hall => ?_⟩
  have hdest : (⟨10, 5060⟩ : Addr) = ⟨20, 5060⟩ := hall _ hmem
  exact absurd hdest (by decide)

end ProgrammingPath.Forward
