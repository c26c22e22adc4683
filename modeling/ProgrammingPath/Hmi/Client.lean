import ProgrammingPath.Lib.Run
import ProgrammingPath.Lib.Table

/-!
# The MQTT client of the HMI

`MESMqttClient` is a thread that connects to the broker, uploads the rows of the production table one
by one and starts again when the connection is lost. The steps of the thread are the actions of a
run, with what the library and the database answer as their arguments; other threads store rows in
between. The upload loop deletes a row after it called `sendD2S` for it and does not look at what
`sendD2S` returned, so production data is safe in the runs in which every upload is confirmed.
-/

namespace ProgrammingPath.Hmi

open ProgrammingPath.Lib

/-! ## Packets -/

/-- `QString::toLatin1`: a character outside Latin-1 becomes a question mark, two outside the BMP. -/
def toLatin1 (s : String) : List UInt8 :=
  s.toList.flatMap fun c =>
    if c.toNat < 256 then [UInt8.ofNat c.toNat]
    else if c.toNat < 65536 then [63]
    else [63, 63]

/-- A `quint16` as `QDataStream` writes it. -/
def be16 (n : UInt16) : List UInt8 := [UInt8.ofNat (n.toNat / 256), UInt8.ofNat (n.toNat % 256)]

/-- `MESPacket` with its body. -/
structure MESPacket where
  versions : UInt8
  tag : UInt8
  key : UInt16
  length : UInt16
  data : List UInt8
  deriving DecidableEq, Repr

/-- `MESPacketBody::setData`. -/
def MESPacket.setData (p : MESPacket) (str : String) : MESPacket :=
  { p with data := toLatin1 str, length := UInt16.ofNat (toLatin1 str).length }

def MESPacket.toByteArray (p : MESPacket) : List UInt8 :=
  let blength := UInt16.ofNat p.data.length
  let hlength := p.length + 4
  [p.versions, p.tag] ++ be16 hlength ++ be16 p.key ++ be16 blength ++ p.data.take blength.toNat

/-! ## Sending -/

/-- What the library does with a message: whether the broker gets it, and what
`MQTTClient_waitForCompletion` returns. Success is reported only for what was delivered. -/
structure Publish where
  delivered : Bool
  rc : Int
  truthful : rc = 0 → delivered = true

/-- A message at the broker. -/
structure Message where
  topic : String
  payload : List UInt8
  deriving DecidableEq, Repr

/-- `MESMqttClient::sendMsg`; `mqtClient` says whether the pointer is set. It returns the result and
what arrives at the broker. -/
def sendMsg (mqtClient : Bool) (topic : String) (msg : List UInt8) (o : Publish) :
    Bool × List Message :=
  if mqtClient then (o.rc == 0, if o.delivered then [⟨topic, msg⟩] else [])
  else (false, [])

def d2sTopic (deviceSN : String) : String := "d2s/" ++ deviceSN ++ "/2/data"

/-- The packet `sendD2S` builds. -/
def d2sPacket (tag : UInt8) (key : UInt16) (msg : String) : MESPacket :=
  MESPacket.setData ⟨2, tag, key, 0, []⟩ msg

/-- `MESMqttClient::sendD2S`. -/
def sendD2S (mqtClient : Bool) (deviceSN : String) (tag : UInt8) (key : UInt16) (msg : String)
    (o : Publish) : Bool × List Message :=
  sendMsg mqtClient (d2sTopic deviceSN) (d2sPacket tag key msg).toByteArray o

/-- `sendMsg` tells the truth. -/
theorem mem_sendMsg_of_true {mqtClient : Bool} {topic : String} {msg : List UInt8} {o : Publish}
    (h : (sendMsg mqtClient topic msg o).1 = true) :
    ⟨topic, msg⟩ ∈ (sendMsg mqtClient topic msg o).2 := by
  cases mqtClient with
  | false => cases h
  | true =>
    simp only [sendMsg, if_true] at h ⊢
    rw [o.truthful (beq_iff_eq.mp h), if_pos rfl]
    exact List.mem_singleton_self _

/-! ## The production table -/

/-- A row of `Mes_Producteds`. -/
structure MESProducteds where
  id : Nat
  tagType : Int
  msg : String
  createdTime : String
  deriving DecidableEq, Repr

/-- `select count(*) from Mes_Producteds`, 0 when the query fails. -/
def onCountMsg (t : AutoTable MESProducteds.id) (dbOk : Bool) : Nat :=
  if dbOk then t.rows.length else 0

/-- The first row, in the order of the rows' numbers. -/
def onFirstMsg (t : AutoTable MESProducteds.id) (dbOk : Bool) : Option MESProducteds :=
  if dbOk then t.rows.head? else none

/-- `insert into Mes_Producteds`. -/
def onAppendMsg (t : AutoTable MESProducteds.id) (tag : Int) (msg createdTime : String)
    (dbOk : Bool) : AutoTable MESProducteds.id :=
  if dbOk then t.insert (fun n => ⟨n, tag, msg, createdTime⟩) (fun _ => rfl) else t

/-- `delete from Mes_Producteds where ID=pk`. -/
def onDelete (t : AutoTable MESProducteds.id) (pk : Nat) (dbOk : Bool) :
    AutoTable MESProducteds.id :=
  if dbOk then t.delete (fun r => r.id == pk) else t

theorem mem_onAppendMsg {t : AutoTable MESProducteds.id} {tag : Int} {msg createdTime : String}
    {r : MESProducteds} :
    r ∈ (onAppendMsg t tag msg createdTime true).rows ↔
      r ∈ t.rows ∨ r = ⟨t.seq + 1, tag, msg, createdTime⟩ := by
  rw [onAppendMsg, if_pos rfl, AutoTable.mem_insert]

theorem mem_of_onFirstMsg {t : AutoTable MESProducteds.id} {dbOk : Bool} {r : MESProducteds}
    (h : onFirstMsg t dbOk = some r) : r ∈ t.rows := by
  rw [onFirstMsg] at h
  split at h
  · exact List.mem_of_head? h
  · cases h

/-! ## The thread -/

/-- Where the thread is in `MESMqttClient::run`. -/
inductive Pc
  | start
  | created
  | subscribed
  | loop
  | connected
  | counted
  | loaded (r : MESProducteds)
  | sent (r : MESProducteds) (ret : Bool)
  | finished
  deriving DecidableEq, Repr

/-- A call of `sendD2S` for a row, with what it returned and what arrived at the broker. -/
structure Sending where
  row : MESProducteds
  ret : Bool
  arrived : List Message
  deriving DecidableEq, Repr

/-- The client. `inserted`, `sendings` and `deleted` record what happened so far. -/
structure Client where
  deviceSN : String
  url : String
  mqtClient : Bool
  connectFlag : Bool
  interrupted : Bool
  pc : Pc
  table : AutoTable MESProducteds.id
  inserted : List MESProducteds
  sendings : List Sending
  deleted : List MESProducteds

/-- What the thread does next, with the answers it gets, or what other threads do. -/
inductive Action
  | appendMsg (tag : Int) (msg createdTime : String) (dbOk : Bool)
  | setUrl (url : String)
  | requestInterruption
  | create
  | connect (rc : Int)
  | online (o : Publish)
  | isConnected (ret : Int)
  | count (dbOk : Bool)
  | first (dbOk : Bool)
  | send (o : Publish)
  | delete (dbOk : Bool)

/-- Leave the upload loop, or the attempt to connect. -/
def disconnect (c : Client) : Client :=
  { c with mqtClient := false, connectFlag := false, pc := .start }

/-- A step of the thread, or of another one; `none` when the thread is somewhere else. -/
def step (c : Client) : Action → Option Client
  | .appendMsg tag msg createdTime dbOk =>
    some { c with
      table := onAppendMsg c.table tag msg createdTime dbOk
      inserted :=
        if dbOk then c.inserted ++ [⟨c.table.seq + 1, tag, msg, createdTime⟩] else c.inserted }
  | .setUrl url => some { c with url := url }
  | .requestInterruption => some { c with interrupted := true }
  | .create =>
    if c.pc ≠ .start then none
    else if c.interrupted then some { c with pc := .finished }
    -- without a URL the loop waits
    else if c.url = "" then some { c with connectFlag := false }
    else some { c with mqtClient := true, connectFlag := false, pc := .created }
  | .connect rc =>
    if c.pc ≠ .created then none
    else if rc ≠ 0 then some (disconnect c)
    else some { c with connectFlag := true, pc := .subscribed }
  | .online _ =>
    -- the message that the device is online; its result is not used
    if c.pc ≠ .subscribed then none else some { c with pc := .loop }
  | .isConnected ret =>
    if c.pc ≠ .loop then none
    else if !c.interrupted && ret == 1 then some { c with pc := .connected }
    else some (disconnect c)
  | .count dbOk =>
    if c.pc ≠ .connected then none
    else if 0 < onCountMsg c.table dbOk then some { c with pc := .counted }
    else some { c with pc := .loop }
  | .first dbOk =>
    if c.pc ≠ .counted then none
    else
      match onFirstMsg c.table dbOk with
      | some r => some { c with pc := .loaded r }
      | none => some { c with pc := .loop }
  | .send o =>
    match c.pc with
    | .loaded r =>
      let (ret, arrived) := sendD2S c.mqtClient c.deviceSN (UInt8.ofInt r.tagType) 1 r.msg o
      some { c with sendings := c.sendings ++ [⟨r, ret, arrived⟩], pc := .sent r ret }
    | _ => none
  | .delete dbOk =>
    match c.pc with
    | .sent r _ =>
      some { c with
        table := onDelete c.table r.id dbOk
        deleted :=
          if dbOk then c.deleted ++ c.table.rows.filter (fun s => s.id == r.id) else c.deleted
        pc := .loop }
    | _ => none

/-- The client when the thread starts. -/
def Client.init (deviceSN url : String) : Client :=
  ⟨deviceSN, url, false, false, false, .start, .empty, [], [], []⟩

/-! ## Production data -/

/-- The message that carries a row. -/
def uploadMessage (deviceSN : String) (r : MESProducteds) : Message :=
  ⟨d2sTopic deviceSN, (d2sPacket (UInt8.ofInt r.tagType) 1 r.msg).toByteArray⟩

/-- A call of `sendD2S` for the row returned true. -/
def Confirmed (c : Client) (r : MESProducteds) : Prop :=
  ∃ u ∈ c.sendings, u.row = r ∧ u.ret = true

/-- The message of a call of `sendD2S` for the row arrived. -/
def Delivered (c : Client) (r : MESProducteds) : Prop :=
  ∃ u ∈ c.sendings, u.row = r ∧ uploadMessage c.deviceSN r ∈ u.arrived

/-- No row is deleted before it was sent with success, and every row is stored or was delivered. -/
def Safe (c : Client) : Prop :=
  (∀ r ∈ c.deleted, Confirmed c r) ∧ ∀ r ∈ c.inserted, r ∈ c.table.rows ∨ Delivered c r

/-- The broker confirms an upload before `MQTTClient_waitForCompletion` gives up. -/
def confirms (_ : Client) : Action → Prop
  | .send o => o.rc = 0
  | _ => True

/-- The row that the thread has loaded and not deleted yet. -/
def Pc.row : Pc → Option MESProducteds
  | .loaded r => some r
  | .sent r _ => some r
  | _ => none

/-- What holds between two steps when uploads are confirmed. -/
structure Sound (c : Client) : Prop where
  client : c.pc = .start ∨ c.pc = .finished ∨ c.mqtClient = true
  stored : ∀ r, c.pc.row = some r → r ∈ c.table.rows
  sent : ∀ r ret, c.pc = .sent r ret → Confirmed c r
  truthful : ∀ u ∈ c.sendings, u.ret = true → uploadMessage c.deviceSN u.row ∈ u.arrived
  deleted : ∀ r ∈ c.deleted, Confirmed c r
  kept : ∀ r ∈ c.inserted, r ∈ c.table.rows ∨ r ∈ c.deleted

theorem sound_init (deviceSN url : String) : Sound (Client.init deviceSN url) where
  client := .inl rfl
  stored := fun _ h => by cases h
  sent := fun _ _ h => by cases h
  truthful := fun _ h => by cases h
  deleted := fun _ h => by cases h
  kept := fun _ h => by cases h

theorem Sound.delivered {c : Client} (h : Sound c) {r : MESProducteds} (hr : Confirmed c r) :
    Delivered c r := by
  obtain ⟨u, hu, rfl, hret⟩ := hr
  exact ⟨u, hu, rfl, h.truthful u hu hret⟩

theorem Sound.safe {c : Client} (h : Sound c) : Safe c := by
  refine ⟨h.deleted, fun r hr => ?_⟩
  rcases h.kept r hr with hrow | hdel
  · exact .inl hrow
  · exact .inr (h.delivered (h.deleted r hdel))

variable {c c' : Client}

/-- The pointer is set wherever the thread uses it. -/
theorem Sound.mqtClient_of (h : Sound c) {pc : Pc} (hpc : c.pc = pc) (hstart : pc ≠ .start)
    (hfin : pc ≠ .finished) : c.mqtClient = true := by
  subst hpc
  rcases h.client with hs | hf | hc
  · exact absurd hs hstart
  · exact absurd hf hfin
  · exact hc

/-- Steps that touch neither the table nor the records, and load no row. -/
theorem Sound.move (h : Sound c) {mqtClient connectFlag interrupted : Bool} {url : String} {pc : Pc}
    (hclient : pc = .start ∨ pc = .finished ∨ mqtClient = true)
    (hpc : pc = c.pc ∨ pc.row = none) :
    Sound { c with
      mqtClient := mqtClient, connectFlag := connectFlag, interrupted := interrupted, url := url
      pc := pc } where
  client := hclient
  stored := fun r hr => by
    rcases hpc with rfl | hnone
    · exact h.stored r hr
    · rw [show Pc.row pc = none from hnone] at hr
      cases hr
  sent := fun r ret hr => by
    rcases hpc with rfl | hnone
    · exact h.sent r ret hr
    · rw [show pc = .sent r ret from hr] at hnone
      cases hnone
  truthful := h.truthful
  deleted := h.deleted
  kept := h.kept

theorem Sound.disconnect (h : Sound c) : Sound (disconnect c) := h.move (.inl rfl) (.inr rfl)

/-- The thread goes on from a place where it has its client. -/
theorem Sound.goOn (h : Sound c) {from_ pc : Pc} (hpc : c.pc = from_) (hstart : from_ ≠ .start)
    (hfin : from_ ≠ .finished) (hrow : pc.row = none) (connectFlag : Bool) :
    Sound { c with connectFlag := connectFlag, pc := pc } :=
  h.move (.inr (.inr (h.mqtClient_of hpc hstart hfin))) (.inr hrow)

/-- It loads a row, which is in the table. -/
theorem Sound.load (h : Sound c) {r : MESProducteds} {dbOk : Bool} (hpc : c.pc = .counted)
    (hfirst : onFirstMsg c.table dbOk = some r) : Sound { c with pc := .loaded r } := by
  have hclient := h.mqtClient_of hpc (by decide) (by decide)
  refine ⟨.inr (.inr hclient), fun s hs => ?_, fun s ret hs => (by cases hs), h.truthful, h.deleted, h.kept⟩
  cases hs
  exact mem_of_onFirstMsg hfirst

/-- Another thread stores a row. -/
theorem Sound.appendMsg (h : Sound c) (tag : Int) (msg createdTime : String) (dbOk : Bool) :
    Sound { c with
      table := onAppendMsg c.table tag msg createdTime dbOk
      inserted :=
        if dbOk then c.inserted ++ [⟨c.table.seq + 1, tag, msg, createdTime⟩] else c.inserted } := by
  cases dbOk with
  | false => exact h
  | true =>
    refine ⟨h.client, fun r hr => ?_, h.sent, h.truthful, h.deleted, fun r hr => ?_⟩
    · exact mem_onAppendMsg.mpr (.inl (h.stored r hr))
    · rcases List.mem_append.mp hr with hr | hr
      · rcases h.kept r hr with hrow | hdel
        · exact .inl (mem_onAppendMsg.mpr (.inl hrow))
        · exact .inr hdel
      · exact .inl (mem_onAppendMsg.mpr (.inr (List.mem_singleton.mp hr)))

/-- The row is sent. -/
theorem Sound.send (h : Sound c) {r : MESProducteds} (hpc : c.pc = .loaded r) {o : Publish}
    (hrc : o.rc = 0) :
    Sound { c with
      sendings := c.sendings ++
        [⟨r, (sendD2S c.mqtClient c.deviceSN (UInt8.ofInt r.tagType) 1 r.msg o).1,
          (sendD2S c.mqtClient c.deviceSN (UInt8.ofInt r.tagType) 1 r.msg o).2⟩]
      pc := .sent r (sendD2S c.mqtClient c.deviceSN (UInt8.ofInt r.tagType) 1 r.msg o).1 } := by
  have hclient : c.mqtClient = true := h.mqtClient_of hpc (by simp) (by simp)
  have htrue : (sendD2S c.mqtClient c.deviceSN (UInt8.ofInt r.tagType) 1 r.msg o).1 = true := by
    rw [hclient]
    exact beq_iff_eq.mpr hrc
  have hmono : ∀ s, Confirmed c s → Confirmed { c with
      sendings := c.sendings ++
        [⟨r, (sendD2S c.mqtClient c.deviceSN (UInt8.ofInt r.tagType) 1 r.msg o).1,
          (sendD2S c.mqtClient c.deviceSN (UInt8.ofInt r.tagType) 1 r.msg o).2⟩]
      pc := .sent r (sendD2S c.mqtClient c.deviceSN (UInt8.ofInt r.tagType) 1 r.msg o).1 } s := by
    rintro s ⟨u, hu, hs⟩
    exact ⟨u, List.mem_append_left _ hu, hs⟩
  refine ⟨.inr (.inr hclient), fun s hs => ?_, fun s ret hs => ?_, fun u hu hret => ?_,
    fun s hs => hmono s (h.deleted s hs), h.kept⟩
  · exact h.stored s (by rw [hpc]; exact hs)
  · cases hs
    exact ⟨_, List.mem_append_right _ (List.mem_singleton_self _), rfl, htrue⟩
  · rcases List.mem_append.mp hu with hu | hu
    · exact h.truthful u hu hret
    · rw [List.mem_singleton] at hu
      subst hu
      exact mem_sendMsg_of_true hret

/-- A row that was sent is deleted, and no other one. -/
theorem Sound.delete (h : Sound c) {r : MESProducteds} {ret : Bool} (hpc : c.pc = .sent r ret)
    (dbOk : Bool) :
    Sound { c with
      table := onDelete c.table r.id dbOk
      deleted :=
        if dbOk then c.deleted ++ c.table.rows.filter (fun s => s.id == r.id) else c.deleted
      pc := .loop } := by
  have hclient : c.mqtClient = true := h.mqtClient_of hpc (by simp) (by simp)
  have hrow : r ∈ c.table.rows := h.stored r (by rw [hpc]; rfl)
  refine ⟨.inr (.inr hclient), fun s hs => (by cases hs), fun s ret hs => (by cases hs), h.truthful,
    fun s hs => ?_, fun s hs => ?_⟩
  · cases dbOk with
    | false => exact h.deleted s hs
    | true =>
      rcases List.mem_append.mp hs with hs | hs
      · exact h.deleted s hs
      · -- the number determines the row
        obtain ⟨hmem, hid⟩ := List.mem_filter.mp hs
        rw [AutoTable.eq_of_key_eq hmem hrow (beq_iff_eq.mp hid)]
        exact h.sent r ret hpc
  · cases dbOk with
    | false => exact h.kept s hs
    | true =>
      rcases h.kept s hs with hmem | hdel
      · by_cases hid : s.id = r.id
        · refine .inr (List.mem_append_right _ (List.mem_filter.mpr ⟨hmem, ?_⟩))
          exact beq_iff_eq.mpr hid
        · exact .inl (AutoTable.mem_delete.mpr ⟨hmem, beq_eq_false_iff_ne.mpr hid⟩)
      · exact .inr (List.mem_append_left _ hdel)

/-- Every step keeps what holds, if uploads are confirmed. -/
theorem sound_step (c : Client) (a : Action) (c' : Client) (h : Sound c) (hok : confirms c a)
    (hstep : step c a = some c') : Sound c' := by
  cases a with
  | appendMsg tag msg createdTime dbOk =>
    cases hstep
    exact h.appendMsg tag msg createdTime dbOk
  | setUrl url =>
    cases hstep
    exact h.move h.client (.inl rfl)
  | requestInterruption =>
    cases hstep
    exact h.move h.client (.inl rfl)
  | create =>
    simp only [step, ite_not] at hstep
    split at hstep
    · next hpc =>
      split at hstep
      · cases hstep
        exact h.move (.inr (.inl rfl)) (.inr rfl)
      · split at hstep
        · cases hstep
          exact h.move h.client (.inl rfl)
        · cases hstep
          exact h.move (.inr (.inr rfl)) (.inr rfl)
    · cases hstep
  | connect rc =>
    simp only [step, ite_not] at hstep
    split at hstep
    · next hpc =>
      split at hstep
      · cases hstep
        exact h.goOn hpc (by decide) (by decide) rfl _
      · cases hstep
        exact h.disconnect
    · cases hstep
  | online o =>
    simp only [step, ite_not] at hstep
    split at hstep
    · next hpc =>
      cases hstep
      exact h.goOn hpc (by decide) (by decide) rfl _
    · cases hstep
  | isConnected ret =>
    simp only [step, ite_not] at hstep
    split at hstep
    · next hpc =>
      split at hstep
      · cases hstep
        exact h.goOn hpc (by decide) (by decide) rfl _
      · cases hstep
        exact h.disconnect
    · cases hstep
  | count dbOk =>
    simp only [step, ite_not] at hstep
    split at hstep
    · next hpc =>
      split at hstep
      · cases hstep
        exact h.goOn hpc (by decide) (by decide) rfl _
      · cases hstep
        exact h.goOn hpc (by decide) (by decide) rfl _
    · cases hstep
  | first dbOk =>
    simp only [step, ite_not] at hstep
    split at hstep
    · next hpc =>
      split at hstep
      · next r hfirst =>
        cases hstep
        exact h.load hpc hfirst
      · cases hstep
        exact h.goOn hpc (by decide) (by decide) rfl _
    · cases hstep
  | send o =>
    simp only [step] at hstep
    split at hstep
    · next r hpc =>
      cases hstep
      exact h.send hpc hok
    · cases hstep
  | delete dbOk =>
    simp only [step] at hstep
    split at hstep
    · next r ret hpc =>
      cases hstep
      exact h.delete hpc dbOk
    · cases hstep

/-- Production data is safe in every state of every run in which uploads are confirmed. -/
theorem run_safe (deviceSN url : String) (acts : List Action) (c : Client)
    (hrun : run step (Client.init deviceSN url) acts = some c)
    (hok : Meets step confirms (Client.init deviceSN url) acts) : Safe c :=
  (run_invariant sound_step (sound_init deviceSN url) hok hrun).safe

/-- The library does what it is asked for, or gives up. -/
def Publish.acked : Publish := ⟨true, 0, fun _ => rfl⟩

def Publish.timedOut : Publish := ⟨false, -1, fun h => absurd h (by decide)⟩

/-- Connect and upload the one row that is stored. -/
def uploadOne (o : Publish) : List Action :=
  [.create, .connect 0, .online .acked, .appendMsg 0x11 "{}" "2017-01-01 08:00:00" true,
    .isConnected 1, .count true, .first true, .send o, .delete true]

theorem run_safe_acked : ∃ c, run step (Client.init "444" "tcp://127.0.0.1:1883")
    (uploadOne .acked) = some c ∧ c.deleted ≠ [] ∧ Safe c := by
  have hex : (run step (Client.init "444" "tcp://127.0.0.1:1883") (uploadOne .acked)).any
      (fun c => decide (c.deleted ≠ [])) = true := by decide +kernel
  obtain ⟨c, hc, hdel⟩ := (Option.any_eq_true _ _).mp hex
  refine ⟨c, hc, of_decide_eq_true hdel, run_safe "444" "tcp://127.0.0.1:1883" _ c hc ?_⟩
  exact ⟨trivial, trivial, trivial, trivial, trivial, trivial, trivial, rfl, trivial, trivial⟩

/-- When the broker does not confirm the upload, the row is deleted all the same and is lost. -/
theorem run_timedOut_loses : ∃ c, run step (Client.init "444" "tcp://127.0.0.1:1883")
    (uploadOne .timedOut) = some c ∧ ¬Safe c ∧
      ∃ r ∈ c.inserted, r ∉ c.table.rows ∧ ¬Delivered c r := by
  have hex : (run step (Client.init "444" "tcp://127.0.0.1:1883") (uploadOne .timedOut)).any
      (fun c => decide (c.inserted = [⟨1, 0x11, "{}", "2017-01-01 08:00:00"⟩] ∧
        c.table.rows = [] ∧ ∀ u ∈ c.sendings, u.arrived = [])) = true := by decide +kernel
  obtain ⟨c, hc, hfacts⟩ := (Option.any_eq_true _ _).mp hex
  obtain ⟨hins, hrows, harr⟩ := of_decide_eq_true hfacts
  have hlost : ∃ r ∈ c.inserted, r ∉ c.table.rows ∧ ¬Delivered c r := by
    refine ⟨_, hins ▸ List.mem_singleton_self _, by simp [hrows], ?_⟩
    rintro ⟨u, hu, -, hmem⟩
    rw [harr u hu] at hmem
    cases hmem
  refine ⟨c, hc, fun hsafe => ?_, hlost⟩
  obtain ⟨r, hr, hrow, hdel⟩ := hlost
  rcases hsafe.2 r hr with h | h
  · exact hrow h
  · exact hdel h

end ProgrammingPath.Hmi
