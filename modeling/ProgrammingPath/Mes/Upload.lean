import ProgrammingPath.Lib.Run
import ProgrammingPath.Mes.Tasks

/-!
# No record is lost

The store of records, the two upload tasks, connection A and the server, as one system. What the
terminal writes to A reaches the server sooner or later (`sent`); the server may answer each
transmission at any time and more than once (`replies`); and every answer may be delivered at any
time and more than once. In between tasks start, time out and are deleted, connections come and go.

`answered_of_meets` shows that a record leaves its table only after the server answered a
transmission of this very record, and did not ask for it again. The condition is on the answers as
they are delivered: an answer has no record number, so it must not come to a task that waits for
another record; and the code `0x02`, by which the server asks for a resend, is taken for a success
like any other.
-/

namespace ProgrammingPath.Mes

open ProgrammingPath.Qt ProgrammingPath.Lib

/-! ## The system -/

/-- The number of the note that a message carries. -/
def Message.noteId : Message → Option Nat
  | .note notebook => some notebook.id
  | _ => none

/-- The number of the mould record that a message carries. -/
def Message.producedId : Message → Option Nat
  | .produce producted => some producted.id
  | _ => none

/-- The command byte of the answer to a message that uploads a record. -/
def Message.answerCmd : Message → Option UInt8
  | .produce _ => some 0x90
  | .note notebook =>
    match notebook.type with
    | .brushCard => some 0x91
    | .defectiveInfo => some 0x93
    | .adjMachine => some 0x94
    | .otherSetInfo _ => some 0x95
    | .qualityRegulate => some 0x96
    | .unknown => none
  | _ => none

/-- An answer of the server to a transmission. -/
structure Reply where
  message : Message
  cmd : UInt8
  body : QByteArray
  deriving DecidableEq, Repr

namespace Reply

/-- The packet that arrives. -/
def pack (reply : Reply) : MESPack := { cmdSerial := reply.cmd, body := reply.body, checkFlag := true }

/-- The result byte. Answers to moulds, cards and settings have a type before it. -/
def result (reply : Reply) : UInt8 :=
  if reply.cmd = 0x90 ∨ reply.cmd = 0x91 ∨ reply.cmd = 0x95 then reply.body.getD 1 0
  else reply.body.getD 0 0

end Reply

structure Upload where
  db : DB := {}
  net : Net := {}
  tasks : Tasks := {}
  /-- what was written to A -/
  sent : List Message := []
  /-- what the server answered -/
  replies : List Reply := []
  deriving DecidableEq

namespace Upload

/-- What an effect of the network does here. -/
def onEffect (u : Upload) : Effect → Upload
  | .emit signal =>
    { u with tasks := (u.tasks.onSignal u.db signal).1, db := (u.tasks.onSignal u.db signal).2 }
  | .write .a message => { u with sent := u.sent ++ [message] }
  | _ => u

def handle (u : Upload) (r : Net × List Effect) : Upload :=
  r.2.foldl onEffect { u with net := r.1 }

inductive Act where
  /-- a new note -/
  | note (type : NotebookType)
  /-- a new mould record -/
  | producted (producted : Producted)
  /-- `runTask` -/
  | tick
  | timeOut1
  | timeOut2
  /-- anything that happens to the connection, reads excepted -/
  | net (e : Net.Event)
  /-- the answer to the registration arrives -/
  | register (pack : MESPack)
  /-- the server answers the `i`-th transmission -/
  | reply (i : Nat) (body : QByteArray)
  /-- the `k`-th answer arrives -/
  | deliver (k : Nat)
  deriving DecidableEq, Repr

def step (u : Upload) : Act → Option Upload
  | .note type => some { u with db := u.db.insertNotebook type }
  | .producted producted => some { u with db := u.db.subimtProducted producted }
  | .tick =>
    let r := u.tasks.runTask u.db
    some { u with tasks := r.1, db := r.2.1, net := r.2.2.foldl Net.addRequestA u.net }
  | .timeOut1 => (u.tasks.timeOut1 u.db).map fun r => { u with tasks := r.1, db := r.2 }
  | .timeOut2 => (u.tasks.timeOut2 u.db).map fun r => { u with tasks := r.1, db := r.2 }
  | .net (.readyRead _ _) => none
  | .net e => some (u.handle (u.net.onEvent u.db e))
  | .register pack =>
    if pack.cmdSerial = 0x81 then some (u.handle (u.net.dispatch u.db .a pack)) else none
  | .reply i body =>
    match u.sent[i]? with
    | none => none
    | some message =>
      message.answerCmd.map fun cmd => { u with replies := u.replies ++ [{ message, cmd, body }] }
  | .deliver k => (u.replies[k]?).map fun reply => u.handle (u.net.dispatch u.db .a reply.pack)

/-! ## The condition -/

/-- A note of this kind is what the answer is an answer to. -/
def takes (note : Notebook) (reply : Reply) : Bool :=
  (Message.note note).answerCmd == some reply.cmd &&
    match note.type with
    | .otherSetInfo dataType => reply.body.getD 0 0 == dataType
    | _ => true

/-- The answer is right for the task of mould records: if it takes the answer, and its record is
still stored, this is the record that was answered, and not asked for again. -/
def Right1 (db : DB) (reply : Reply) (task : TaskProducted) : Prop :=
  task.connected = true → reply.cmd = 0x90 → (∃ r ∈ db.producted.rows, r.id = task.producted.id) →
    reply.message.producedId = some task.producted.id ∧ reply.result ≠ 0x02

/-- The answer is right for the task of notes. -/
def Right2 (db : DB) (reply : Reply) (task : TaskNotebook) : Prop :=
  task.connected = true → takes task.notebook reply = true →
    (∃ r ∈ db.notebook.rows, r.id = task.notebook.id) →
      reply.message.noteId = some task.notebook.id ∧ reply.result ≠ 0x02

instance (db : DB) (reply : Reply) (task : TaskProducted) : Decidable (Right1 db reply task) :=
  inferInstanceAs (Decidable (_ → _ → (∃ _ ∈ _, _) → _ ∧ _))

instance (db : DB) (reply : Reply) (task : TaskNotebook) : Decidable (Right2 db reply task) :=
  inferInstanceAs (Decidable (_ → _ → (∃ _ ∈ _, _) → _ ∧ _))

/-- The condition on a step: an answer that is delivered is right for both tasks. -/
def DeliverOk (u : Upload) : Act → Prop
  | .deliver k => ∀ reply ∈ u.replies[k]?,
    (∀ task ∈ u.tasks.task1, Right1 u.db reply task) ∧ ∀ task ∈ u.tasks.task2, Right2 u.db reply task
  | _ => True

instance (u : Upload) : (a : Act) → Decidable (u.DeliverOk a)
  | .deliver k => inferInstanceAs (Decidable (∀ reply ∈ u.replies[k]?,
    (∀ task ∈ u.tasks.task1, Right1 u.db reply task) ∧ ∀ task ∈ u.tasks.task2, Right2 u.db reply task))
  | .note _ | .producted _ | .tick | .timeOut1 | .timeOut2 | .net _ | .register _ | .reply _ _ =>
    inferInstanceAs (Decidable True)

/-! ## The invariant -/

/-- The server has answered a transmission of this note, and did not ask for it again. -/
def NoteAnswered (u : Upload) (id : Nat) : Prop :=
  ∃ reply ∈ u.replies, reply.message.noteId = some id ∧ reply.result ≠ 0x02

/-- The server has answered a transmission of this mould record, and did not ask for it again. -/
def MouldAnswered (u : Upload) (id : Nat) : Prop :=
  ∃ reply ∈ u.replies, reply.message.producedId = some id ∧ reply.result ≠ 0x02

/-- Every record that was stored once and is stored no more was answered. Answers are answers to
what was sent. -/
structure Answered (u : Upload) : Prop where
  notes : u.db.notebook.Accounted u.NoteAnswered
  moulds : u.db.producted.Accounted u.MouldAnswered
  genuine : ∀ reply ∈ u.replies, reply.message.answerCmd = some reply.cmd

variable {u : Upload}

theorem Answered.congr {u' : Upload} (h : Answered u) (hn : u'.db.notebook = u.db.notebook)
    (hp : u'.db.producted = u.db.producted) (hr : u'.replies = u.replies) : Answered u' := by
  refine ⟨?_, ?_, ?_⟩
  · rw [hn, show u'.NoteAnswered = u.NoteAnswered by unfold NoteAnswered; rw [hr]]
    exact h.notes
  · rw [hp, show u'.MouldAnswered = u.MouldAnswered by unfold MouldAnswered; rw [hr]]
    exact h.moulds
  · rw [hr]
    exact h.genuine

/-- A signal that no task takes for an answer. -/
def quiet : Signal → Bool
  | .produce _ result | .icCard _ result | .defectiveInfo result | .adjMachine result
  | .qualityRegulate result => result == .failClose
  | .other response => response.result == .failClose
  | _ => true

theorem accepts_of_quiet {signal : Signal} (h : quiet signal = true) :
    (∀ task : TaskProducted, task.accepts signal = false) ∧
      ∀ task : TaskNotebook, task.accepts signal = false := by
  constructor
  · intro task
    unfold TaskProducted.accepts
    split
    · simp_all [quiet]
    · rfl
  · intro task
    unfold TaskNotebook.accepts
    split <;> simp_all [quiet]

/-- Without an answer for them, the records stay. -/
theorem onSignal_of_quiet (tasks : Tasks) (db : DB) {signal : Signal} (h : quiet signal = true) :
    (tasks.onSignal db signal).2.notebook = db.notebook ∧
      (tasks.onSignal db signal).2.producted = db.producted := by
  obtain ⟨h1, h2⟩ := accepts_of_quiet h
  refine Tasks.records_onSignal (fun task _ hacc => ?_) (fun task _ hacc => ?_)
  · rw [h1] at hacc
    cases hacc
  · rw [h2] at hacc
    cases hacc

/-- An effect that leaves the records alone. -/
def quietEffect : Effect → Bool
  | .emit signal => quiet signal
  | _ => true

theorem Answered.handle (h : Answered u) {r : Net × List Effect}
    (hquiet : ∀ e ∈ r.2, quietEffect e = true) : Answered (u.handle r) := by
  have hfold : ∀ (l : List Effect) (v : Upload), (∀ e ∈ l, quietEffect e = true) → Answered v →
      Answered (l.foldl onEffect v) := by
    intro l
    induction l with
    | nil => exact fun v _ hv => hv
    | cons e l ih =>
      intro v hl hv
      apply ih _ (fun e' he' => hl e' (by simp [he']))
      have he := hl e (by simp)
      cases e with
      | emit signal =>
        obtain ⟨hn, hp⟩ := onSignal_of_quiet v.tasks v.db he
        exact hv.congr hn hp rfl
      | write sock message =>
        cases sock with
        | a => exact hv.congr rfl rfl rfl
        | b => exact hv
      | connectToHost sock => exact hv
      | close sock => exact hv
  exact hfold r.2 _ hquiet (h.congr rfl rfl rfl)

/-- No event of the connection is an answer; a lost connection says so. -/
theorem quiet_onEvent {db : DB} {net : Net} {e : Net.Event}
    (h : ∀ sock array, e ≠ .readyRead sock array) :
    ∀ eff ∈ (net.onEvent db e).2, quietEffect eff = true := by
  cases e with
  | readyRead sock array => exact absurd rfl (h sock array)
  | connected sock =>
    cases sock <;> simp [Net.onEvent, Net.slotConnectedA, Net.slotConnectedB, quietEffect, quiet]
  | closed sock =>
    cases sock with
    | a => simp [Net.onEvent, Net.slotClosedA, quietEffect, quiet]
    | b =>
      simp only [Net.onEvent, Net.slotClosedB]
      split <;> simp [quietEffect, quiet]
  | error sock err =>
    cases sock <;> cases err <;> simp only [Net.onEvent, Net.slotErrorA, Net.slotErrorB]
    · simp
    · simp [quietEffect]
    · simp
    · split <;> simp [quietEffect]
  | regTimeOut =>
    simp only [Net.onEvent, Net.slotRegTimeOut]
    split <;> simp [quietEffect]
  | startNextRequestA =>
    simp only [Net.onEvent, Net.startNextRequestA]
    split <;> simp [quietEffect]
  | start => simp [Net.onEvent, Net.start, Net.close, quietEffect]
  | close => simp [Net.onEvent, Net.close, quietEffect]
  | restart => simp [Net.onEvent, Net.start, Net.close, quietEffect]

/-- Nor is the answer to the registration. -/
theorem quiet_register {db : DB} {net : Net} {pack : MESPack} (h : pack.cmdSerial = 0x81) :
    ∀ eff ∈ (net.dispatch db .a pack).2, quietEffect eff = true := by
  have hdispatch : (net.dispatch db .a pack).2 = (net.protocolRegdevParse pack).2 := by
    simp [Net.dispatch, Net.handlers, h, Net.callAll, Net.call]
  rw [hdispatch]
  unfold Net.protocolRegdevParse
  split
  · simp
  · split
    · simp
    · split <;> simp [quietEffect, quiet]

/-- The signal that an answer is turned into. -/
def replySignal (reply : Reply) : Signal :=
  match reply.cmd.toNat with
  | 0x90 => .produce (reply.body.getD 0 0) (fdatResultFormatAppendix (reply.body.getD 1 0))
  | 0x91 => .icCard (reply.body.getD 0 0) (fdatResultFormatAppendix (reply.body.getD 1 0))
  | 0x93 => .defectiveInfo (fdatResultFormatAppendix (reply.body.getD 0 0))
  | 0x94 => .adjMachine (fdatResultFormatAppendix (reply.body.getD 0 0))
  | 0x95 => .other ((MESOtherResponse.decode reply.pack).getD {})
  | _ => .qualityRegulate (fdatResultFormatAppendix (reply.body.getD 0 0))

/-- The commands of answers. -/
theorem answerCmd_cases {message : Message} {cmd : UInt8} (h : message.answerCmd = some cmd) :
    cmd = 0x90 ∨ cmd = 0x91 ∨ cmd = 0x93 ∨ cmd = 0x94 ∨ cmd = 0x95 ∨ cmd = 0x96 := by
  unfold Message.answerCmd at h
  grind

/-- A delivered answer is one signal. -/
theorem dispatch_reply {db : DB} {net : Net} {reply : Reply}
    (h : reply.message.answerCmd = some reply.cmd) :
    net.dispatch db .a reply.pack = (net, [.emit (replySignal reply)]) := by
  obtain ⟨message, cmd, body⟩ := reply
  rcases answerCmd_cases h with rfl | rfl | rfl | rfl | rfl | rfl
  · rfl
  · rfl
  · rfl
  · rfl
  · rfl
  · rfl

/-- A task accepts an answer only if it is one to a record of its kind. -/
theorem takes_of_accepts {reply : Reply} (h : reply.message.answerCmd = some reply.cmd)
    {task : TaskNotebook} (hacc : task.accepts (replySignal reply) = true) :
    task.connected = true ∧ takes task.notebook reply = true := by
  obtain ⟨message, cmd, body⟩ := reply
  unfold TaskNotebook.accepts at hacc
  obtain ⟨hconn, hkind⟩ := (Bool.and_eq_true _ _).mp hacc
  refine ⟨hconn, ?_⟩
  unfold takes Message.answerCmd
  -- command and type must belong together; only settings look at the body
  rcases answerCmd_cases h with hc | hc | hc | hc | hc | hc <;> subst hc <;>
    cases htype : task.notebook.type <;> simp [htype, replySignal] at hkind ⊢
  rw [hkind.2]
  cases hdecode : MESOtherResponse.decode (Reply.pack ⟨message, 0x95, body⟩) with
  | none => simp [MESOtherResponse.decode, Reply.pack] at hdecode
  | some response => exact (MESOtherResponse.dataType_of_decode hdecode).symm

theorem cmd_of_accepts {reply : Reply} (h : reply.message.answerCmd = some reply.cmd)
    {task : TaskProducted} (hacc : task.accepts (replySignal reply) = true) :
    task.connected = true ∧ reply.cmd = 0x90 := by
  obtain ⟨message, cmd, body⟩ := reply
  rcases answerCmd_cases h with hc | hc | hc | hc | hc | hc <;> subst hc <;>
    simp [replySignal, TaskProducted.accepts] at hacc
  exact ⟨hacc.1, rfl⟩

/-- A delivered answer. -/
theorem Answered.deliver (h : Answered u) {k : Nat} {reply : Reply}
    (hk : u.replies[k]? = some reply) (hok : u.DeliverOk (.deliver k)) :
    Answered (u.handle (u.net.dispatch u.db .a reply.pack)) := by
  have hreply := List.mem_of_getElem? hk
  have hcmd := h.genuine reply hreply
  obtain ⟨hok1, hok2⟩ := hok reply hk
  rw [dispatch_reply hcmd]
  refine ⟨?_, ?_, h.genuine⟩
  · show (u.tasks.onSignal u.db (replySignal reply)).2.notebook.Accounted u.NoteAnswered
    rcases u.tasks.notebook_onSignal u.db (replySignal reply) with hsame | ⟨task, htask, hacc, hdel⟩
    · rw [hsame]
      exact h.notes
    · rw [hdel]
      apply h.notes.delete_key
      intro hstored
      obtain ⟨hconn, htakes⟩ := takes_of_accepts hcmd hacc
      exact ⟨reply, hreply, hok2 task htask hconn htakes hstored⟩
  · show (u.tasks.onSignal u.db (replySignal reply)).2.producted.Accounted u.MouldAnswered
    rcases u.tasks.producted_onSignal u.db (replySignal reply) with hsame | ⟨task, htask, hacc, hdel⟩
    · rw [hsame]
      exact h.moulds
    · rw [hdel]
      apply h.moulds.delete_key
      intro hstored
      obtain ⟨hconn, hc⟩ := cmd_of_accepts hcmd hacc
      exact ⟨reply, hreply, hok1 task htask hconn hc hstored⟩

/-! ## Steps and runs -/

theorem Answered.step {u' : Upload} {a : Act} (h : Answered u) (hok : u.DeliverOk a)
    (hs : u.step a = some u') : Answered u' := by
  cases a with
  | note type =>
    cases hs
    exact ⟨h.notes.insert, h.moulds, h.genuine⟩
  | producted producted =>
    cases hs
    exact ⟨h.notes, h.moulds.insert, h.genuine⟩
  | tick =>
    cases hs
    obtain ⟨hn, hp⟩ := Tasks.runTask_db u.tasks u.db
    exact h.congr hn hp rfl
  | timeOut1 =>
    obtain ⟨r, hr, rfl⟩ := Option.map_eq_some_iff.mp hs
    obtain ⟨hn, hp⟩ := Tasks.timeOut_db (.inl hr)
    exact h.congr hn hp rfl
  | timeOut2 =>
    obtain ⟨r, hr, rfl⟩ := Option.map_eq_some_iff.mp hs
    obtain ⟨hn, hp⟩ := Tasks.timeOut_db (.inr hr)
    exact h.congr hn hp rfl
  | net e =>
    have hread : ∀ sock array, e ≠ .readyRead sock array := by
      rintro sock array rfl
      cases hs
    have hhandle : u' = u.handle (u.net.onEvent u.db e) := by
      cases e <;> first | exact absurd rfl (hread _ _) | exact (Option.some.inj hs).symm
    rw [hhandle]
    exact h.handle (quiet_onEvent hread)
  | register pack =>
    simp only [Upload.step] at hs
    split at hs
    · next hcmd =>
      cases hs
      exact h.handle (quiet_register hcmd)
    · cases hs
  | reply i body =>
    simp only [Upload.step] at hs
    split at hs
    · cases hs
    · next message _ =>
      obtain ⟨cmd, hcmd, rfl⟩ := Option.map_eq_some_iff.mp hs
      -- what was answered stays answered
      refine ⟨h.notes.mono ?_, h.moulds.mono ?_, ?_⟩
      · rintro id ⟨reply, hreply, hright⟩
        exact ⟨reply, List.mem_append_left _ hreply, hright⟩
      · rintro id ⟨reply, hreply, hright⟩
        exact ⟨reply, List.mem_append_left _ hreply, hright⟩
      · intro reply hreply
        rcases List.mem_append.mp hreply with hreply | hreply
        · exact h.genuine reply hreply
        · rw [List.mem_singleton.mp hreply]
          exact hcmd
  | deliver k =>
    obtain ⟨reply, hk, rfl⟩ := Option.map_eq_some_iff.mp hs
    exact h.deliver hk hok

theorem answered_init (u : Upload) (hn : u.db.notebook = AutoTable.empty)
    (hp : u.db.producted = AutoTable.empty) (hr : u.replies = []) : Answered u := by
  refine ⟨?_, ?_, ?_⟩
  · rw [hn]
    exact AutoTable.Accounted.empty _
  · rw [hp]
    exact AutoTable.Accounted.empty _
  · rw [hr]
    intro reply hreply
    exact absurd hreply List.not_mem_nil

/-- **No record is lost.** Take any run, with any interleaving of new records, ticks, time-outs,
connections and disconnections, answers of the server and deliveries of them, such that every answer
delivered is right for the tasks that take it. Then each record that was stored at any time, and is
not stored any more, was answered by the server, which did not ask for it again. -/
theorem answered_of_meets (acts : List Act) (t : Upload) (hok : Meets step DeliverOk {} acts)
    (hrun : run step {} acts = some t) :
    (∀ id, 0 < id → id ≤ t.db.notebook.seq → (∀ r ∈ t.db.notebook.rows, r.id ≠ id) →
      ∃ reply ∈ t.replies, reply.message.noteId = some id ∧ reply.result ≠ 0x02) ∧
    ∀ id, 0 < id → id ≤ t.db.producted.seq → (∀ r ∈ t.db.producted.rows, r.id ≠ id) →
      ∃ reply ∈ t.replies, reply.message.producedId = some id ∧ reply.result ≠ 0x02 := by
  have h : Answered t :=
    run_invariant (fun _ _ _ h ho hs => h.step ho hs) (answered_init {} rfl rfl rfl) hok hrun
  exact ⟨h.notes, h.moulds⟩

/-- The beginning of the runs below: the terminal is connected and registered, has two notes, and
has sent the first of them. -/
def firstSent : List Act :=
  [.net .start, .net (.connected .a), .note .brushCard, .note .brushCard,
    .register { cmdSerial := 0x81, checkFlag := true }, .tick, .net .startNextRequestA,
    .net .startNextRequestA]

/-- The first note is answered and removed; the second one stays. -/
theorem answered_of_meets_first_note :
    ∃ t, run step {} (firstSent ++ [.reply 1 [0, 0], .deliver 0]) = some t ∧
      t.db.notebook.rows.map (·.id) = [2] ∧
      ∃ reply ∈ t.replies, reply.message.noteId = some 1 ∧ reply.result ≠ 0x02 := by
  have hend : (run step {} (firstSent ++ [.reply 1 [0, 0], .deliver 0])).any (fun t =>
      t.db.notebook.rows.map (·.id) = [2] ∧ t.db.notebook.seq = 2) = true := by decide +kernel
  obtain ⟨t, ht, hrows⟩ := (Option.any_eq_true _ _).mp hend
  obtain ⟨hrows, hseq⟩ := of_decide_eq_true hrows
  have hgone : ∀ r ∈ t.db.notebook.rows, r.id ≠ 1 := by
    intro r hr hid
    have hmem : r.id ∈ t.db.notebook.rows.map (·.id) := List.mem_map_of_mem hr
    rw [hrows, hid] at hmem
    exact absurd hmem (by decide)
  exact ⟨t, ht, hrows,
    (answered_of_meets _ t (by decide +kernel) ht).1 1 (by decide) (by rw [hseq]; decide) hgone⟩

/-- The first note is sent again after a time-out, and answered twice. The second answer arrives
when the second note is waiting for its own, and removes it. -/
theorem answered_late :
    ¬ ∀ (acts : List Act) (t : Upload), run step {} acts = some t →
      ∀ id, 0 < id → id ≤ t.db.notebook.seq → (∀ r ∈ t.db.notebook.rows, r.id ≠ id) →
        ∃ reply ∈ t.replies, reply.message.noteId = some id ∧ reply.result ≠ 0x02 := by
  intro h
  have hend : (run step {} (firstSent ++ [.timeOut2, .tick, .tick, .net .startNextRequestA,
      .reply 1 [0, 0], .reply 2 [0, 0], .deliver 0, .tick, .tick, .deliver 1])).any (fun t =>
      t.db.notebook.rows = [] ∧ t.db.notebook.seq = 2 ∧
        ¬ ∃ reply ∈ t.replies, reply.message.noteId = some 2 ∧ reply.result ≠ 0x02) = true := by
    decide +kernel
  obtain ⟨t, ht, hlost⟩ := (Option.any_eq_true _ _).mp hend
  obtain ⟨hrows, hseq, hnot⟩ := of_decide_eq_true hlost
  apply hnot
  apply h _ t ht 2 (by decide) (by rw [hseq])
  intro r hr
  rw [hrows] at hr
  exact absurd hr List.not_mem_nil

end Upload

end ProgrammingPath.Mes
