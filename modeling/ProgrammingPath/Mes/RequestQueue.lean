import ProgrammingPath.Lib.Run
import ProgrammingPath.Mes.Net

/-!
# The requests on the way to A (`NetCSCP/mesnet.cpp`)

`addRequestA` encodes a request, appends it to `aBuff` and queues a call of `_q_startNextRequestA`; the event loop takes these
calls one by one, with more requests coming in between. The queue and the calls are counted apart. `Balanced` says that they
never get out of step, so that every request is written, once and in its turn. The slots of the connection do to `aBuff`
what the queue does (`Follows.onEvent`).
-/

namespace ProgrammingPath.Mes

open ProgrammingPath.Qt
open ProgrammingPath.Lib

/-! ## The queue -/

/-- `aBuff`, the calls of `_q_startNextRequestA` in the event loop, and what was handed to `socketA->write`. -/
structure RequestQueue where
  aBuff : List QByteArray := []
  invocations : Nat := 0
  written : List QByteArray := []
  deriving DecidableEq, Repr

namespace RequestQueue

-- `ρ` is `MESRequest`, with its virtual function
variable {ρ : Type} (toMESPack : ρ → MESPack)

/-- The bytes of a request. -/
def encoded (request : ρ) : QByteArray := (toMESPack request).toByteArray

/-- `addRequestA`. -/
def addRequestA (q : RequestQueue) (request : ρ) : RequestQueue :=
  { q with aBuff := q.aBuff ++ [encoded toMESPack request], invocations := q.invocations + 1 }

/-- `_q_startNextRequestA`; `none` for `first()` on an empty list. -/
def startNextRequestA (q : RequestQueue) : Option RequestQueue :=
  match q.aBuff with
  | [] => none
  | arr :: rest => some { q with aBuff := rest, written := q.written ++ [arr] }

/-- What happens to the queue: a request comes in, or the event loop takes one of the calls. -/
inductive Act (ρ : Type)
  | addRequestA (request : ρ)
  | startNextRequestA

def step (q : RequestQueue) : Act ρ → Option RequestQueue
  | .addRequestA request => some (q.addRequestA toMESPack request)
  | .startNextRequestA => { q with invocations := q.invocations - 1 }.startNextRequestA

/-- The event loop takes only calls that are queued. -/
def Queued (q : RequestQueue) : Act ρ → Prop
  | .addRequestA _ => True
  | .startNextRequestA => 0 < q.invocations

/-- The requests that came in. -/
def requests : List (Act ρ) → List ρ
  | [] => []
  | .addRequestA request :: acts => request :: requests acts
  | .startNextRequestA :: acts => requests acts

variable {toMESPack} {q q' : RequestQueue} {sent : List ρ} {acts : List (Act ρ)} {a : Act ρ}

theorem requests_append (acts acts' : List (Act ρ)) : requests (acts ++ acts') = requests acts ++ requests acts' := by
  induction acts with
  | nil => rfl
  | cons a acts ih =>
    cases a with
    | addRequestA request => exact congrArg _ ih
    | startNextRequestA => exact ih

/-! ## Every call has its request -/

/-- There are as many calls as requests that wait, and these come behind the ones that were written. -/
structure Balanced (toMESPack : ρ → MESPack) (q : RequestQueue) (sent : List ρ) : Prop where
  invocations : q.invocations = q.aBuff.length
  order : q.written ++ q.aBuff = sent.map (encoded toMESPack)

theorem balanced_init : Balanced toMESPack {} [] := ⟨rfl, rfl⟩

theorem Balanced.addRequestA (h : Balanced toMESPack q sent) (request : ρ) :
    Balanced toMESPack (q.addRequestA toMESPack request) (sent ++ [request]) where
  invocations := by
    show q.invocations + 1 = (q.aBuff ++ [_]).length
    rw [h.invocations, List.length_append, List.length_singleton]
  order := by
    show q.written ++ (q.aBuff ++ [_]) = _
    rw [← List.append_assoc, h.order, List.map_append, List.map_singleton]

/-- A call that is queued finds a request. -/
theorem Balanced.startNextRequestA (h : Balanced toMESPack q sent) (hpos : 0 < q.invocations) :
    ∃ q', { q with invocations := q.invocations - 1 }.startNextRequestA = some q' ∧ Balanced toMESPack q' sent := by
  obtain ⟨hcount, horder⟩ := h
  obtain ⟨arr, rest, hbuff⟩ := List.exists_cons_of_length_pos (hcount ▸ hpos)
  rw [hbuff] at hcount horder
  rw [RequestQueue.startNextRequestA, hbuff]
  refine ⟨_, rfl, ?_, ?_⟩
  · show q.invocations - 1 = rest.length
    rw [hcount]
    rfl
  · show q.written ++ [arr] ++ rest = _
    rw [List.append_assoc]
    exact horder

theorem Balanced.step (h : Balanced toMESPack q sent) (hqueued : Queued q a) :
    ∃ q', step toMESPack q a = some q' ∧ Balanced toMESPack q' (sent ++ requests [a]) := by
  cases a with
  | addRequestA request => exact ⟨_, rfl, h.addRequestA request⟩
  | startNextRequestA =>
    obtain ⟨q', hstart, hq'⟩ := h.startNextRequestA hqueued
    exact ⟨q', hstart, (List.append_nil sent).symm ▸ hq'⟩

theorem Balanced.run (h : Balanced toMESPack q sent) (hqueued : Meets (RequestQueue.step toMESPack) Queued q acts) :
    ∃ q', Lib.run (RequestQueue.step toMESPack) q acts = some q' ∧ Balanced toMESPack q' (sent ++ requests acts) := by
  induction acts generalizing q sent with
  | nil => exact ⟨q, rfl, (List.append_nil sent).symm ▸ h⟩
  | cons a acts ih =>
    obtain ⟨m, hstep, hm⟩ := h.step hqueued.head
    obtain ⟨q', hrun, hq'⟩ := ih hm (hqueued.tail hstep)
    rw [List.append_assoc, ← requests_append] at hq'
    exact ⟨q', run_cons_eq_some.mpr ⟨m, hstep, hrun⟩, hq'⟩

/-- In every order of calls `first()` finds a request, and the requests are written one by one as they came in. -/
theorem requests_written (toMESPack : ρ → MESPack) (acts : List (Act ρ))
    (hqueued : Meets (step toMESPack) Queued {} acts) :
    ∃ q, Lib.run (step toMESPack) {} acts = some q ∧ q.invocations = q.aBuff.length ∧
      q.written ++ q.aBuff = (requests acts).map (encoded toMESPack) := by
  obtain ⟨q, hrun, hq⟩ := balanced_init.run hqueued
  exact ⟨q, hrun, hq.invocations, hq.order⟩

/-- A request comes in while the call for an earlier one is queued. -/
def overlapping : List (Act MESPack) :=
  [.addRequestA { cmdSerial := 0x10, body := [1] }, .addRequestA { cmdSerial := 0x12 }, .startNextRequestA,
    .addRequestA { cmdSerial := 0x14, body := [2, 3] }, .startNextRequestA]

theorem requests_written_overlapping :
    Meets (step id) Queued {} overlapping ∧
      ∃ q, Lib.run (step id) {} overlapping = some q ∧ q.invocations = q.aBuff.length ∧
        q.written ++ q.aBuff = (requests overlapping).map (encoded id) := by
  have hqueued : Meets (step id) Queued {} overlapping := by
    refine ⟨trivial, trivial, ?_, trivial, ?_, trivial⟩
    · exact Nat.succ_pos 1
    · exact Nat.succ_pos 1
  exact ⟨hqueued, requests_written id overlapping hqueued⟩

/-! ## The connection -/

variable {toMessage : Message → MESPack} {db : DB} {net : Net} {messages : List Message}

/-- What an event of the connection is for the queue: a connection to A registers. -/
def ofEvent : Net.Event → List (Act Message)
  | .connected .a => [.addRequestA .reg]
  | .startNextRequestA => [.startNextRequestA]
  | _ => []

/-- The requests of the connection are the ones of the queue. -/
def Follows (toMessage : Message → MESPack) (q : RequestQueue) (net : Net) : Prop :=
  q.aBuff = net.aBuff.map (encoded toMessage)

theorem Follows.addRequestA (h : Follows toMessage q net) (m : Message) :
    Follows toMessage (q.addRequestA toMessage m) (net.addRequestA m) := by
  show q.aBuff ++ [_] = (net.aBuff ++ [m]).map _
  rw [h, List.map_append, List.map_singleton]

/-- A queued call writes the same request to A. -/
theorem Follows.startNextRequestA (h : Follows toMessage q net) (hstart : q.startNextRequestA = some q') :
    ∃ m, (net.startNextRequestA).2 = [.write .a m] ∧ q'.written = q.written ++ [encoded toMessage m] ∧
      Follows toMessage q' (net.startNextRequestA).1 := by
  cases hbuff : net.aBuff with
  | nil =>
    rw [Follows, hbuff] at h
    rw [RequestQueue.startNextRequestA, h] at hstart
    exact nomatch hstart
  | cons m rest =>
    rw [Follows, hbuff] at h
    rw [RequestQueue.startNextRequestA, h] at hstart
    cases hstart
    rw [Net.startNextRequestA, hbuff]
    exact ⟨m, rfl, rfl, rfl⟩

theorem aBuff_dispatch (sock : Sock) (pack : MESPack) : (Net.dispatch db net sock pack).1.aBuff = net.aBuff := by
  obtain ⟨result, hresult⟩ := @Net.dispatch_fst db net sock pack
  rw [hresult]

theorem aBuff_slotReadyRead (sock : Sock) (array : QByteArray) :
    (net.slotReadyRead db sock array).1.aBuff = net.aBuff := by
  cases hcut : Net.cutFrame (net.buff sock ++ array) with
  | none =>
    simp only [Net.slotReadyRead, hcut]
    cases sock <;> rfl
  | some c =>
    simp only [Net.slotReadyRead, hcut, aBuff_dispatch]
    cases sock <;> rfl

/-- Along the events of the connection the queue stays what `aBuff` is. -/
theorem Follows.onEvent (h : Follows toMessage q net) (hq : Balanced toMessage q messages) (e : Net.Event)
    (hqueued : e = .startNextRequestA → 0 < q.invocations) :
    ∃ q', Lib.run (step toMessage) q (ofEvent e) = some q' ∧ Follows toMessage q' (net.onEvent db e).1 ∧
      Balanced toMessage q' (messages ++ requests (ofEvent e)) := by
  have hsame (he : ofEvent e = []) (hbuff : (net.onEvent db e).1.aBuff = net.aBuff) :
      ∃ q', Lib.run (step toMessage) q (ofEvent e) = some q' ∧ Follows toMessage q' (net.onEvent db e).1 ∧
        Balanced toMessage q' (messages ++ requests (ofEvent e)) := by
    rw [he]
    refine ⟨q, rfl, ?_, (List.append_nil messages).symm ▸ hq⟩
    rw [Follows, hbuff]
    exact h
  cases e with
  | connected sock =>
    cases sock with
    | a => exact ⟨_, rfl, h.addRequestA .reg, hq.addRequestA .reg⟩
    | b => exact hsame rfl rfl
  | startNextRequestA =>
    obtain ⟨q', hstart, hq'⟩ := hq.startNextRequestA (hqueued rfl)
    have htaken : Follows toMessage { q with invocations := q.invocations - 1 } net := h
    obtain ⟨m, -, -, hfollows⟩ := htaken.startNextRequestA hstart
    refine ⟨q', ?_, hfollows, (List.append_nil messages).symm ▸ hq'⟩
    rw [ofEvent, run_cons, step, hstart]
    rfl
  | readyRead sock array => exact hsame rfl (aBuff_slotReadyRead sock array)
  | closed sock => cases sock <;> exact hsame rfl rfl
  | error sock err => cases sock <;> cases err <;> exact hsame rfl rfl
  | _ => exact hsame rfl rfl

end RequestQueue

end ProgrammingPath.Mes
